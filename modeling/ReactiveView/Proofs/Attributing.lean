import Mathlib.Logic.Relation
import ReactiveView.Proofs.Conduct

/-!
# Whose reads they are

What a computation does, told from its parts. The reads of reactive slots are listed in
order for whoever occupies the observer slot when it begins. Reads with the slot vacated
are for nobody, and those of an evaluation that begins on the way are for its binding.
-/

namespace ReactiveView

set_option autoImplicit false

variable {κ σ α β : Type}

namespace State

/-- One thing that happens while the observer slot stays as it is. No one who is spared
is taken out of a registry from outside. -/
inductive Step (spared : SubscriberId → Prop) (state : State κ σ) : State κ σ → Prop where
  | data (store : Store)
      (same : ∀ registry, store.subscribers registry = state.store.subscribers registry)
      (ranged : state.store.Ranged → store.Ranged) :
      Step spared state { state with store }
  | outside (document : Document (Listener κ)) (warnings : List Warning) (host : σ) :
      Step spared state { state with document, warnings, host }
  | added (role : Role κ) : Step spared state (state.addSubscriber ⟨role, true, 0⟩).2
  | handed (id : SubscriberId) (value : Value) : Step spared state (state.hand id value)
  | joined (registry : RegistryId) (id : SubscriberId) :
      Step spared state (state.changeStore (·.register registry id))
  | left (registry : RegistryId) (id : SubscriberId) (open' : ¬ spared id) :
      Step spared state (state.changeStore (·.unregister registry id))
  | dropped (id : SubscriberId) : Step spared state (state.drop id)

abbrev Moves (spared : SubscriberId → Prop) : State κ σ → State κ σ → Prop :=
  Relation.ReflTransGen (Step spared)

variable {spared : SubscriberId → Prop} {state later : State κ σ}

theorem Step.observer (step : state.Step spared later) : later.observer = state.observer := by
  cases step with
  | dropped id => exact observer_settle _ id
  | _ => rfl

theorem Moves.observer (moves : state.Moves spared later) :
    later.observer = state.observer := by
  induction moves with
  | refl => rfl
  | tail _ step induction => exact step.observer.trans induction

theorem observer_leave (state : State κ σ) (id : SubscriberId) :
    (state.leave id).observer = state.observer :=
  observer_settle _ id

/-- A read is seen by the observer if the slot is reactive. -/
theorem observer_read (state : State κ σ) (place : Place) :
    (state.read place).2.observer = state.observer.map (fun observer =>
      (state.store.registryAt place).toList.foldl Observer.see observer) := by
  unfold read
  cases found : state.store.slot? place with
  | none => simp [Store.registryAt, found]
  | some slot =>
      obtain ⟨value, registry⟩ := slot
      cases registry with
      | none => simp [Store.registryAt, found]
      | some registry =>
          cases observed : state.observer with
          | none => simp [track, observed]
          | some observer => simp [Store.registryAt, found, observer_track observed]

theorem observer_reconcile (id : SubscriberId) (reads : List RegistryId) (data : Store)
    (outcome : Except Error Value) (state : State κ σ) :
    (state.reconcile id reads data outcome).observer = state.observer := by
  unfold reconcile
  split <;> rfl

end State

namespace Engine

theorem untracked_eq (body : Engine κ σ α) (state : State κ σ) :
    untracked body state =
      match body { state with observer := none } with
      | .ended outcome later =>
          .ended outcome { later with observer := state.observer.or later.observer }
      | .stopped later => .stopped later := by
  have suspended : (look State.observer : Engine κ σ (Option Observer)) state =
      .ended (.ok state.observer) state := rfl
  have vacated : (alter (fun state => { state with observer := none }) : Engine κ σ Unit) state =
      .ended (.ok ()) { state with observer := none } := rfl
  rw [untracked, bind_of_ok suspended, bind_of_ok vacated]
  cases ran : body { state with observer := none } with
  | stopped later => simp only [Bind.bind, bind, attempt, ran]
  | ended outcome later =>
      have tried : attempt body { state with observer := none } =
          .ended (.ok outcome) later := by
        simp only [attempt, ran]
      rw [bind_of_ok tried]
      cases state.observer <;> rfl

theorem evaluateBinding_of_observed {state : State κ σ} {observer : Observer}
    (occupied : state.observer = some observer) (invoke : Invoke κ σ) (id : SubscriberId)
    (binding : Binding κ) :
    evaluateBinding invoke id binding state = .ended (.error .nestedEvaluation) state := by
  have data : (look State.store : Engine κ σ Store) state = .ended (.ok state.store) state := rfl
  have refused : observe id state = .ended (.error .nestedEvaluation) state := by
    simp only [observe, occupied]
  rw [evaluateBinding, bind_of_ok data, bind_of_error refused]

theorem evaluateBinding_of_idle {state : State κ σ} (idle : state.observer = none)
    (invoke : Invoke κ σ) (id : SubscriberId) (binding : Binding κ) :
    evaluateBinding invoke id binding state =
      match evaluateFormula invoke binding.context binding.formula (state.observing id) with
      | .ended outcome final =>
          .ended outcome (State.reconcile id ((final.observer.map Observer.reads).getD [])
            state.store outcome { final with observer := none })
      | .stopped final => .stopped final := by
  have data : (look State.store : Engine κ σ Store) state = .ended (.ok state.store) state := rfl
  have start : observe id state = .ended (.ok ()) (state.observing id) := by
    simp only [observe, idle]
    rfl
  rw [evaluateBinding, bind_of_ok data, bind_of_ok start]
  cases ran : evaluateFormula invoke binding.context binding.formula (state.observing id) with
  | stopped final => simp only [Bind.bind, bind, attempt, ran]
  | ended outcome final =>
      have tried : attempt (evaluateFormula invoke binding.context binding.formula)
          (state.observing id) = .ended (.ok outcome) final := by
        simp only [attempt, ran]
      rw [bind_of_ok tried]
      rfl

theorem observer_of_evaluated {invoke : Invoke κ σ} {id : SubscriberId} {binding : Binding κ}
    {state later : State κ σ} {value : Value}
    (ended : evaluateBinding invoke id binding state = .ended (.ok value) later) :
    later.observer = none := by
  cases observed : state.observer with
  | some observer =>
      rw [evaluateBinding_of_observed observed] at ended
      cases ended
  | none =>
      rw [evaluateBinding_of_idle observed] at ended
      cases ran : evaluateFormula invoke binding.context binding.formula (state.observing id) with
      | stopped final =>
          rw [ran] at ended
          cases ended
      | ended outcome final =>
          rw [ran] at ended
          cases ended
          exact State.observer_reconcile _ _ _ _ _

/-- From a state on, a computation ends with an outcome in a later state, and the
registries are those of the reactive slots that it reads for the observer it found. The
spared are not taken out of registries from outside, and no evaluation of them succeeds. -/
inductive Runs (spared : SubscriberId → Prop) : {α : Type} → Engine κ σ α → State κ σ →
    List RegistryId → Except Error α → State κ σ → Prop where
  | changed {α : Type} {change : State κ σ → α × State κ σ} {state : State κ σ}
      (moves : state.Moves spared (change state).2) :
      Runs spared (transform change) state [] (.ok (change state).1) (change state).2
  | failed {α : Type} (error : Error) (state : State κ σ) :
      Runs spared (fail error : Engine κ σ α) state [] (.error error) state
  | read (place : Place) (state : State κ σ) :
      Runs spared (transform (State.read place)) state (state.store.registryAt place).toList
        (.ok (state.read place).1) (state.read place).2
  | bind {α β : Type} {first : Engine κ σ α} {second : α → Engine κ σ β}
      {state between later : State κ σ} {reads others : List RegistryId} {value : α}
      {outcome : Except Error β} (here : Runs spared first state reads (.ok value) between)
      (next : Runs spared (second value) between others outcome later) :
      Runs spared (first >>= second) state (reads ++ others) outcome later
  | broken {α β : Type} {first : Engine κ σ α} (second : α → Engine κ σ β)
      {state later : State κ σ} {reads : List RegistryId} {error : Error}
      (here : Runs spared first state reads (.error error) later) :
      Runs spared (first >>= second) state reads (.error error) later
  | attempt {α : Type} {body : Engine κ σ α} {state later : State κ σ}
      {reads : List RegistryId} {outcome : Except Error α}
      (here : Runs spared body state reads outcome later) :
      Runs spared (attempt body) state reads (.ok outcome) later
  | running {α : Type} (id : SubscriberId) {body : Engine κ σ α} {state later : State κ σ}
      {reads : List RegistryId} {outcome : Except Error α}
      (here : Runs spared body (state.enter id) reads outcome later) :
      Runs spared (whileRunning id body) state reads outcome (later.leave id)
  | untracked {α : Type} {body : Engine κ σ α} {state later : State κ σ}
      {reads : List RegistryId} {outcome : Except Error α}
      (here : Runs spared body { state with observer := none } reads outcome later) :
      Runs spared (untracked body) state [] outcome { later with observer := state.observer }
  | refused {invoke : Invoke κ σ} (id : SubscriberId) (binding : Binding κ)
      {state : State κ σ} {observer : Observer} (occupied : state.observer = some observer) :
      Runs spared (evaluateBinding invoke id binding) state [] (.error .nestedEvaluation) state
  /-- The reads of an evaluation go to the binding that is evaluated. -/
  | evaluated {invoke : Invoke κ σ} {id : SubscriberId} {binding : Binding κ}
      {state final : State κ σ} {reads : List RegistryId} {outcome : Except Error Value}
      (idle : state.observer = none) (admitted : spared id → ∃ error, outcome = .error error)
      (here : Runs spared (evaluateFormula invoke binding.context binding.formula)
        (state.observing id) reads outcome final) :
      Runs spared (evaluateBinding invoke id binding) state [] outcome
        (State.reconcile id reads.eraseDups state.store outcome { final with observer := none })

variable {spared : SubscriberId → Prop} {body : Engine κ σ α} {state later : State κ σ}
  {reads : List RegistryId} {outcome : Except Error α}

namespace Runs

/-- The observer stays, and what it has read grows by the reads for it. -/
theorem observer (runs : Runs spared body state reads outcome later) :
    later.observer =
      state.observer.map (fun observer => reads.foldl Observer.see observer) := by
  induction runs with
  | changed moves => simp [moves.observer]
  | failed => simp
  | read place state => exact state.observer_read place
  | bind _ _ first second =>
      rw [second, first]
      simp [Function.comp_def]
  | broken _ _ induction => exact induction
  | attempt _ induction => exact induction
  | running id _ induction => exact (State.observer_leave _ id).trans induction
  | untracked => simp
  | refused => simp
  | evaluated idle => simp [State.observer_reconcile, idle]

theorem observer_observing {id : SubscriberId}
    (runs : Runs spared body (state.observing id) reads outcome later) :
    later.observer = some ⟨id, reads.eraseDups⟩ := by
  have observed : (state.observing id).observer = some ⟨id, []⟩ := rfl
  rw [runs.observer, observed, Option.map_some, Observer.foldl_see]

theorem ended (runs : Runs spared body state reads outcome later) :
    body state = .ended outcome later := by
  induction runs with
  | changed => rfl
  | failed => rfl
  | read => rfl
  | bind _ _ first second => rw [bind_of_ok first, second]
  | broken second _ first => exact bind_of_error first second
  | attempt _ induction => simp only [Engine.attempt, induction]
  | running id _ induction => rw [whileRunning_eq, induction]
  | untracked here induction =>
      rw [untracked_eq, induction]
      simp [here.observer]
  | refused id binding occupied => exact evaluateBinding_of_observed occupied _ id binding
  | evaluated idle _ here induction =>
      rw [evaluateBinding_of_idle idle, induction]
      simp [here.observer_observing]

end Runs

/-- An evaluation goes by the reads of its formula, whoever else is evaluated meanwhile. -/
theorem evaluateBinding_of_runs {invoke : Invoke κ σ} {id : SubscriberId} {binding : Binding κ}
    {final : State κ σ} {outcome : Except Error Value} (idle : state.observer = none)
    (runs : Runs spared (evaluateFormula invoke binding.context binding.formula)
      (state.observing id) reads outcome final) :
    evaluateBinding invoke id binding state =
      .ended outcome (State.reconcile id reads.eraseDups state.store outcome
        { final with observer := none }) := by
  rw [evaluateBinding_of_idle idle, runs.ended]
  simp [runs.observer_observing]

end Engine

end ReactiveView
