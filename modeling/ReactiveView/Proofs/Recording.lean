import ReactiveView.Proofs.Arranging
import ReactiveView.Proofs.History
import ReactiveView.Proofs.Passing
import ReactiveView.Proofs.Performing

/-!
# Every run has a history

Whatever the engine is put together from leads from its first state to its last one by
events, if the callers' code that it runs does. So do all programs, however passes and
callers' code are nested in one another.
-/

namespace ReactiveView

set_option autoImplicit false

variable {κ σ α : Type} {asks : Document.Setting → Prop}

namespace State

theorem Upkeep.leads {state later : State κ σ} (upkeep : state.Upkeep later) :
    state.Leads asks later := by
  cases upkeep with
  | noted warnings host => exact Aside.leads (.of_subscribers rfl rfl)
  | added role =>
      cases role with
      | binding binding => exact (Occurs.bound binding).leads
      | code body => exact (aside_addSubscriber state body).leads
  | handed id value => exact (aside_hand state id value).leads
  | joined registry id => exact (aside_changeStore state _).leads
  | left registry id => exact (aside_changeStore state _).leads
  | dropped id => exact (aside_release state id releases_drop).leads

/-- While a binding is evaluated, callers' code may do anything, but not make it another
one: the reaction sets what its binding is for, on the value handed to that. -/
theorem leads_set {state between : State κ σ} {id : SubscriberId} {binding : Binding κ}
    {value : Value} {setting : Document.Setting} (found : state.binding? id = some binding)
    (leads : state.Leads asks between)
    (sets : binding.reaction.setting? between.store value = some setting) :
    (between.hand id value).Leads asks
      ((between.hand id value).changeDocument (fun document => document.set setting)) := by
  obtain ⟨now, found', same⟩ :=
    binding?_of_blueprint? (leads.blueprint? (blueprint?_of_binding? found))
  have handed : (between.hand id value).binding? id = some { now with handed := some value } := by
    rw [hand, binding?_changeBinding, if_pos rfl, found', Option.map_some]
  have reaction : now.reaction = binding.reaction := congrArg Blueprint.reaction same
  rw [← reaction] at sets
  exact (Occurs.set handed rfl sets).leads

end State

/-- Events lead from the one state to the other. -/
def Trail.recording (κ σ : Type) (asks : Document.Setting → Prop) : Trail κ σ where
  leads := State.Leads asks
  asks := asks
  refl := .refl
  trans := .trans
  keeps := State.Upkeep.leads
  edits := fun edit _ asked => (State.Occurs.edited edit asked).leads
  reads := fun state place => (state.aside_read place).leads
  observes := fun _ _ => State.Aside.leads (.of_subscribers rfl rfl)
  enters := fun state id => (state.aside_enter id).leads
  leaves := fun state id => (state.aside_release id State.releases_leave).leads
  reconciles := fun state id reads data outcome =>
    (state.aside_reconcile id reads data outcome).leads
  sets := State.leads_set

theorem Trail.free_recording : (recording κ σ asks).Free :=
  fun _ _ _ _ => State.Aside.leads (.of_subscribers rfl rfl)

/-- Callers' code that asks for no more than it may leads on by events. -/
theorem Trail.joins_recording {code : κ → Occasion κ → Program κ σ Value}
    (uses : ∀ body occasion, (code body occasion).Uses (Command.Asks asks)) (depth : Nat) :
    (recording κ σ asks).correspondence.Joins (Program.invoke code depth)
      (Program.invoke code depth) :=
  Program.joins_invoke free_recording uses depth

end ReactiveView
