import ReactiveView.Proofs.Corresponding

/-!
# What a run leads to

A relation between earlier and later states holds from the beginning of every operation to
its end, however that ends, once it holds of the single changes that the engine makes and of
callers' code. A relation between earlier and later data is such a one if it takes no notice
of subscribers: evaluations, passes and the upkeep of bindings change who subscribes to what,
and only writes and callers' code change what containers hold.
-/

namespace ReactiveView

set_option autoImplicit false

open Engine

variable {κ σ α : Type}

/-- A relation between earlier and later states that holds of all that happens to a state
about an evaluation as well. -/
structure Trail (κ σ : Type) extends Passage κ σ where
  reads : ∀ (state : State κ σ) (place : Place), leads state (state.read place).2
  observes : ∀ (state : State κ σ) (observer : Option Observer), leads state { state with observer }
  enters : ∀ (state : State κ σ) (id : SubscriberId), leads state (state.enter id)
  leaves : ∀ (state : State κ σ) (id : SubscriberId), leads state (state.leave id)
  reconciles : ∀ (state : State κ σ) (id : SubscriberId) (reads : List RegistryId) (data : Store)
    (outcome : Except Error Value), leads state (state.reconcile id reads data outcome)
  sets : ∀ {state between : State κ σ} {id : SubscriberId} {binding : Binding κ} {value : Value}
    {setting : Document.Setting}, state.binding? id = some binding → leads state between →
      binding.reaction.setting? between.store value = some setting →
      leads (between.hand id value)
        ((between.hand id value).changeDocument (fun document => document.set setting))

namespace Trail

/-- It holds between where a computation begins and where it ends or is stopped. -/
def correspondence (trail : Trail κ σ) : Correspondence κ σ where
  toPassage := trail.toPassage
  holds := fun body _ state => trail.leads state (body state).state
  stops := fun state => trail.refl state
  fails := fun _ state => trail.refl state
  changes := fun _ _ leads => leads
  reads := fun place state => trail.reads state place
  binds := by
    intro _ _ first _ second _ state here next
    cases ran : first state with
    | stopped between =>
        rw [ran] at here
        simp only [Bind.bind, Engine.bind, ran]
        exact here
    | ended outcome between =>
        rw [ran] at here
        cases outcome with
        | error error =>
            rw [bind_of_error ran]
            exact here
        | ok value =>
            rw [bind_of_ok ran]
            exact trail.trans here (next value between ran)
  attempts := by
    intro _ body _ state here
    unfold Engine.attempt
    cases ran : body state <;> rwa [ran] at here
  runs := by
    intro _ body _ id state here
    have within := trail.trans (trail.enters state id) here
    rw [whileRunning_eq]
    cases ran : body (state.enter id) with
    | stopped between => rwa [ran] at within
    | ended outcome between =>
        rw [ran] at within
        exact trail.trans within (trail.leaves between id)
  suspends := by
    intro _ body _ state here
    have within := trail.trans (trail.observes state none) here
    rw [untracked_eq]
    cases ran : body { state with observer := none } with
    | stopped between => rwa [ran] at within
    | ended outcome between =>
        rw [ran] at within
        exact trail.trans within (trail.observes between _)
  refuses := by
    intro _ _ _ _ state _ occupied
    rw [evaluateBinding_of_observed occupied]
    exact trail.refl state
  evaluates := by
    intro invoke _ id binding state idle here
    have within := trail.trans (trail.observes state (some ⟨id, []⟩)) here
    rw [evaluateBinding_of_idle idle]
    cases ran : evaluateFormula invoke binding.context binding.formula (state.observing id) with
    | stopped between => rwa [ran] at within
    | ended outcome between =>
        rw [ran] at within
        have freed := trail.trans within (trail.observes between none)
        exact trail.trans freed (trail.reconciles _ id _ _ outcome)
  sets := by
    intro _ _ _ _ _ _ _ _ found here ended sets
    rw [ended] at here
    exact trail.sets found here sets

/-- A computation goes along it from a state on. -/
abbrev Passes (trail : Trail κ σ) (body : Engine κ σ α) (state : State κ σ) : Prop :=
  trail.correspondence.holds body body state

theorem Passes.leads {trail : Trail κ σ} {body : Engine κ σ α} {state later : State κ σ}
    {outcome : Except Error α} (passes : trail.Passes body state)
    (ended : body state = .ended outcome later) : trail.leads state later := by
  have leads : trail.leads state (body state).state := passes
  rwa [ended] at leads

theorem joins {trail : Trail κ σ} {invoke : Invoke κ σ}
    (invokes : ∀ body occasion state, trail.Passes (invoke body occasion) state) :
    trail.correspondence.Joins invoke invoke :=
  fun body occasion state _ => invokes body occasion state

/-- A relation between earlier and later data that takes no notice of subscribers. -/
def ofData (leads : Store → Store → Prop)
    (same : ∀ {store later : Store}, store.SameData later → leads store later)
    (trans : ∀ {store later final : Store}, leads store later → leads later final →
      leads store final) : Trail κ σ where
  leads := fun state later => leads state.store later.store
  asks := fun _ => True
  refl := fun state => same (.refl state.store)
  trans := trans
  keeps := by
    intro state later upkeep
    cases upkeep with
    | joined registry id => exact same (Store.sameData_register _ registry id)
    | left registry id => exact same ⟨rfl, rfl⟩
    | dropped id => exact same (State.sameButFor_release state id _).data
    | _ => exact same (.refl _)
  edits := fun _ _ _ => same (.refl _)
  reads := fun state place => same (State.sameData_note state (.slot place))
  observes := fun _ _ => same (.refl _)
  enters := fun _ _ => same (.refl _)
  leaves := fun state id => same (State.sameButFor_release state id _).data
  reconciles := fun _ _ reads data outcome => same (State.sameButFor_reconcile reads data outcome).data
  sets := fun _ _ _ => same (.refl _)

end Trail

end ReactiveView
