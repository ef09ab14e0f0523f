import ReactiveView.Proofs.Cascades
import ReactiveView.Proofs.Passing
import ReactiveView.Proofs.Saturation

/-!
# Reactivity through a run

Callers make containers, instrument what they like and write values to slots that are there,
in any order and from within any callback. However the notifications go that follow the
writes, saturated data stay saturated, and what is reached from an instrumented root is
reactive at every moment.
-/

namespace ReactiveView

set_option autoImplicit false

variable {κ σ α : Type}

/-- The relation of well-formed data to data that upholds it. -/
def Trail.upholding (κ σ : Type) : Trail κ σ :=
  .ofData (fun store later => store.Closed → store.Upholds later)
    (fun same closed => Store.upholds_of_sameData closed same)
    (by
      intro store later final first second closed
      have before := first closed
      exact before.trans (second before.closed))

namespace Command

/-- Commands that work in place: they write to slots that are there, or to an index that a
list may not have. What they write or put into new containers exists. Commands that
add slots to a container are not among them, nor those that hand control to a document. -/
def inPlace (state : State κ σ) : {β : Type} → Command κ β → Bool
  | _, .newRecord fields => fields.all (fun field => state.store.knows field.2)
  | _, .newList items => items.all state.store.knows
  | _, .write (.field record key) value =>
      (state.store.slot? (.field record key)).isSome && state.store.knows value
  | _, .write (.item _ _) value => state.store.knows value
  | _, .ingest _ | _, .push _ _ => false
  | _, .dispatch _ _ | _, .input _ _ | _, .compile _ _ | _, .mount _ _ _ => false
  | _, _ => true

end Command

namespace Engine

variable {state : State κ σ} {invoke : Invoke κ σ}
  (invokes : ∀ body occasion state, (Trail.upholding κ σ).Passes (invoke body occasion) state)
include invokes

theorem upholds_write {place : Place} {value : Value}
    (inPlace : (Command.write place value : Command κ Unit).inPlace state = true) :
    (Trail.upholding κ σ).Passes (write invoke place value) state := by
  have known : value.Within state.store.Has := by
    apply Store.within_of_knows
    cases place with
    | field record key => exact (Bool.and_eq_true_iff.mp inPlace).2
    | item list index => exact inPlace
  apply corresponds_write_of (Trail.joins invokes)
  · intro old registry _ closed
    exact Store.upholds_overwrite closed place known registry
  · intro old found closed
    exact Store.upholds_put_plain closed found known
  · intro record key equal absent
    subst equal
    have there := (Bool.and_eq_true_iff.mp inPlace).1
    rw [absent] at there
    cases there

theorem upholds_perform (depth : Nat) (command : Command κ α)
    (inPlace : command.inPlace state = true) :
    (Trail.upholding κ σ).Passes (command.perform invoke depth) state := by
  cases command with
  | newRecord fields =>
      intro closed
      apply Store.upholds_newRecord closed
      intro field member
      exact Store.within_of_knows (List.all_eq_true.mp inPlace field member)
  | newList items =>
      intro closed
      apply Store.upholds_newList closed
      intro value member
      exact Store.within_of_knows (List.all_eq_true.mp inPlace value member)
  | ingest json => cases inPlace
  | write place value => exact upholds_write invokes inPlace
  | push list value => cases inPlace
  | instrument record => exact fun closed => Store.upholds_instrument closed record
  | instrumentField record key =>
      exact fun closed => Store.upholds_instrumentField closed record key
  | newRegistry =>
      exact fun closed => Store.upholds_of_sameData closed (Store.sameData_newRegistry _)
  | dispatch node event => cases inPlace
  | input node value => cases inPlace
  | mount selector data methods => cases inPlace
  | _ =>
      exact Command.corresponds_perform_of_keepsData (Trail.joins invokes) depth rfl
        (fun _ _ => trivial) state

end Engine

namespace Program

/-- A program that stops before a command that does not work in place. -/
def keptInPlace : Program κ σ α → Program κ σ α
  | done outcome => done outcome
  | stop => stop
  | inspect next => inspect (fun state => (next state).keptInPlace)
  | record change next => record change next.keptInPlace
  | perform command next => inspect (fun state =>
      if command.inPlace state then perform command (fun outcome => (next outcome).keptInPlace)
      else stop)

/-- Callers' code that is kept to commands that work in place. -/
def keepInPlace (code : κ → Occasion κ → Program κ σ Value) (body : κ) (occasion : Occasion κ) :
    Program κ σ Value :=
  (code body occasion).keptInPlace

theorem trims_keptInPlace (program : Program κ σ α) : Trims program.keptInPlace program := by
  induction program with
  | done outcome => exact .done outcome
  | stop => exact .stop stop
  | inspect next induction => exact .inspect induction
  | record change next induction => exact .record change induction
  | perform command next induction =>
      rw [keptInPlace]
      apply Trims.watch
      intro state
      split
      · exact .perform command induction
      · exact .stop _

theorem upholds_execute {invoke : Invoke κ σ}
    (invokes : ∀ body occasion state, (Trail.upholding κ σ).Passes (invoke body occasion) state)
    (depth : Nat) (program : Program κ σ α) (state : State κ σ) :
    (Trail.upholding κ σ).Passes (program.keptInPlace.execute invoke depth) state := by
  induction program generalizing state with
  | done outcome => exact Engine.corresponds_ofExcept outcome
  | stop => exact (Trail.upholding κ σ).refl state
  | inspect next induction => exact induction state state
  | record change next induction => exact induction { state with host := change state.host }
  | perform command next induction =>
      let kept : Program κ σ α := if command.inPlace state then
        perform command (fun outcome => (next outcome).keptInPlace) else stop
      change (Trail.upholding κ σ).leads state (kept.execute invoke depth state).state
      by_cases inPlace : command.inPlace state = true
      · simp only [kept, if_pos inPlace]
        rw [execute_perform]
        have performs := Engine.upholds_perform invokes depth command inPlace
        apply (Trail.upholding κ σ).correspondence.binds
          ((Trail.upholding κ σ).correspondence.attempts performs)
        intro outcome between _
        exact induction outcome between
      · simp only [kept, if_neg inPlace]
        exact (Trail.upholding κ σ).refl state

theorem upholds_invoke (code : κ → Occasion κ → Program κ σ Value) (depth : Nat) (body : κ)
    (occasion : Occasion κ) (state : State κ σ) :
    (Trail.upholding κ σ).Passes (invoke (keepInPlace code) depth body occasion) state := by
  induction depth generalizing body occasion state with
  | zero => exact (Trail.upholding κ σ).refl state
  | succ depth induction => exact upholds_execute induction depth (code body occasion) state

theorem below_keepInPlace (code : κ → Occasion κ → Program κ σ Value) (depth : Nat) (body : κ)
    (occasion : Occasion κ) :
    Engine.Below (invoke (keepInPlace code) depth body occasion)
      (invoke code depth body occasion) := by
  induction depth generalizing body occasion with
  | zero => exact Engine.below_refl _
  | succ depth induction =>
      exact below_of_trims induction (trims_keptInPlace (code body occasion)) depth

end Program

/-- A run from well-formed data that is stopped before the first command that does not work
in place, in callers' code at any depth as well. However it ends or is stopped, data that
were saturated are saturated, and a container from which all was reactive still is one.
If it ends, no such command was met, and the program itself goes in the same way. -/
theorem reactivity_endures (code : κ → Occasion κ → Program κ σ Value) (program : Program κ σ α)
    (depth : Nat) {state : State κ σ} (closed : state.store.Closed) :
    let course := program.keptInPlace.execute
      (Program.invoke (Program.keepInPlace code) depth) depth state
    (state.store.Saturated → course.state.store.Saturated) ∧
    (∀ root, state.store.Has root → state.store.Spread root → course.state.store.Spread root) ∧
    ∀ outcome later, course = .ended outcome later →
      program.execute (Program.invoke code depth) depth state = .ended outcome later := by
  have invokes := Program.upholds_invoke code depth
  have upholds := Program.upholds_execute invokes depth program state closed
  refine ⟨upholds.saturated, fun root there spread => (upholds.spread root there spread).2, ?_⟩
  have below := Program.below_keepInPlace code depth
  exact Program.below_of_trims below (Program.trims_keptInPlace program) depth state

def scalarsOnly : Unit → Occasion Unit → Program Unit Unit Value
  | _, .updated (.record _) => Program.fail (.unknownMethod "record")
  | _, _ => pure .null

/-- Puts a root into a field of its own, and then a new record that leads back to the root.
Both notifications fail. -/
def enclosing : Program Unit Unit Unit := do
  let _ ← Program.run (.bind "name" (.expression (.identifier "name")) ⟨⟨0⟩, .empty⟩ ())
  let _ ← Program.attempt (Program.run (.write (.field ⟨0⟩ "name") (.record ⟨0⟩)))
  let inner ← Program.run (.newRecord [("up", .record ⟨0⟩), ("title", .null)])
  let _ ← Program.attempt (Program.run (.write (.field ⟨0⟩ "name") (.record inner)))
  pure ()

theorem pair_saturated : (pair.instrument ⟨0⟩).Saturated := by
  apply (Store.upholds_instrument pair_pristine.closed ⟨0⟩).saturated
  intro place slot inner found attached holds
  rcases Store.slot?_newRecord found with impossible | ⟨-, field, -, rfl⟩
  · rw [Store.slot?_empty] at impossible
    cases impossible
  · cases attached

theorem reactivity_endures_enclosing :
    (State.instrumented pair ⟨0⟩ () : State Unit Unit).store.Closed ∧
    ∃ later, enclosing.execute (Program.invoke scalarsOnly 2) 2 (State.instrumented pair ⟨0⟩ ()) =
        .ended (.ok ()) later ∧
      later.store.Saturated ∧ later.store.Spread (.record ⟨0⟩) := by
  have grounded := (rooted_instrumented (κ := Unit) pair_pristine ()).grounded
  have succeeds : (enclosing.keptInPlace.execute (Program.invoke (Program.keepInPlace scalarsOnly) 2)
      2 (State.instrumented pair ⟨0⟩ ())).succeeds = true := by decide +kernel
  obtain ⟨value, later, ended⟩ := Course.ended_of_succeeds succeeds
  obtain ⟨saturated, spread, whole⟩ :=
    reactivity_endures scalarsOnly enclosing 2 grounded.closed
  rw [ended] at saturated spread
  exact ⟨grounded.closed, later, whole _ _ ended, saturated pair_saturated,
    spread _ grounded.there grounded.reactive⟩

end ReactiveView
