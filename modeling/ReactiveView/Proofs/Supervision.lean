import ReactiveView.Proofs.Freshness
import ReactiveView.Proofs.Performing

/-!
# Supervised runs

A supervised program is stopped before a command that is not admitted and after one
that fails. If a run under supervision ends, then no such command was met in it, in
callers' code at no depth, and without supervision it ends in the same way.
-/

namespace ReactiveView

set_option autoImplicit false

variable {κ σ α β : Type}

namespace Engine

/-- What ends in the first computation ends in the same way in the second. -/
def Below (first second : Engine κ σ α) : Prop :=
  ∀ state outcome later, first state = .ended outcome later →
    second state = .ended outcome later

theorem below_refl (body : Engine κ σ α) : Below body body := fun _ _ _ => id

end Engine

open Engine

/-- The same from one state on. -/
def Correspondence.below (κ σ : Type) : Correspondence κ σ where
  toPassage := .moves κ σ
  holds := fun first second state => ∀ outcome later, first state = .ended outcome later →
    second state = .ended outcome later
  stops := fun _ _ _ => id
  fails := fun _ _ _ _ => id
  changes := fun _ _ _ _ _ => id
  reads := fun _ _ _ _ => id
  binds := by
    intro _ _ first first' second second' state here next outcome later ended
    cases ran : first state with
    | stopped between =>
        simp only [Bind.bind, Engine.bind, ran] at ended
        cases ended
    | ended result between =>
        have ran' := here result between ran
        cases result with
        | error error => rwa [bind_of_error ran', ← bind_of_error ran second]
        | ok value =>
            rw [bind_of_ok ran] at ended
            rw [bind_of_ok ran']
            exact next value between ran outcome later ended
  attempts := by
    intro _ body body' state here outcome later ended
    cases ran : body state with
    | stopped between =>
        simp only [Engine.attempt, ran] at ended
        cases ended
    | ended result between =>
        simp only [Engine.attempt, ran] at ended
        simpa only [Engine.attempt, here result between ran] using ended
  runs := by
    intro _ body body' id state here outcome later ended
    rw [whileRunning_eq] at ended ⊢
    cases ran : body (state.enter id) with
    | stopped between =>
        rw [ran] at ended
        cases ended
    | ended result between =>
        rw [ran] at ended
        rwa [here result between ran]
  suspends := by
    intro _ body body' state here outcome later ended
    rw [untracked_eq] at ended ⊢
    cases ran : body { state with observer := none } with
    | stopped between =>
        rw [ran] at ended
        cases ended
    | ended result between =>
        rw [ran] at ended
        rwa [here result between ran]
  refuses := by
    intro invoke invoke' id binding state observer occupied outcome later ended
    rwa [evaluateBinding_of_observed occupied] at ended ⊢
  evaluates := by
    intro invoke invoke' id binding state idle here outcome later ended
    rw [evaluateBinding_of_idle idle] at ended ⊢
    cases ran : evaluateFormula invoke binding.context binding.formula (state.observing id) with
    | stopped between =>
        rw [ran] at ended
        cases ended
    | ended result between =>
        rw [ran] at ended
        rwa [here result between ran]
  sets := fun _ _ _ _ => .single (.outside _ _ _)

namespace Program

/-- A program that goes like another one, and may stop at any point of it after a look at
the state. -/
inductive Trims {κ σ α : Type} : Program κ σ α → Program κ σ α → Prop where
  | done (outcome : Except Error α) : Trims (done outcome) (done outcome)
  | stop (program : Program κ σ α) : Trims stop program
  | inspect {next next' : State κ σ → Program κ σ α}
      (each : ∀ state, Trims (next state) (next' state)) : Trims (inspect next) (inspect next')
  | record (change : σ → σ) {next next' : Program κ σ α} (rest : Trims next next') :
      Trims (record change next) (record change next')
  | perform {β : Type} (command : Command κ β) {next next' : Except Error β → Program κ σ α}
      (each : ∀ outcome, Trims (next outcome) (next' outcome)) :
      Trims (perform command next) (perform command next')
  | watch {next : State κ σ → Program κ σ α} {program : Program κ σ α}
      (each : ∀ state, Trims (next state) program) : Trims (inspect next) program

/-- Where a trimmed program ends, what was trimmed off was not reached. -/
theorem below_of_trims {invoke invoke' : Invoke κ σ}
    (below : ∀ body occasion, Engine.Below (invoke body occasion) (invoke' body occasion))
    {program whole : Program κ σ α} (trims : Trims program whole) (depth : Nat) :
    Engine.Below (program.execute invoke depth) (whole.execute invoke' depth) := by
  induction trims with
  | done outcome => exact Engine.below_refl _
  | stop whole =>
      intro state outcome later impossible
      cases impossible
  | inspect _ induction => exact fun state => induction state state
  | record change _ induction =>
      exact fun state => induction { state with host := change state.host }
  | perform command _ induction =>
      have joins : (Correspondence.below κ σ).Joins invoke invoke' :=
        fun body occasion state _ => below body occasion state
      intro state outcome later ended
      simp only [execute] at ended ⊢
      cases ran : command.perform invoke depth state with
      | stopped between =>
          rw [ran] at ended
          cases ended
      | ended result between =>
          rw [ran] at ended
          rw [command.corresponds_perform joins Passage.free_moves depth (fun _ _ => trivial) state
            result between ran]
          exact induction result between outcome later ended
  | watch _ induction => exact fun state => induction state state

/-- A program that stops before it performs a command that is not admitted, and after one
that fails. -/
def supervised (root : RecordId) : Program κ σ α → Program κ σ α
  | done outcome => done outcome
  | stop => stop
  | inspect next => inspect (fun state => (next state).supervised root)
  | record change next => record change (next.supervised root)
  | perform command next => inspect (fun state =>
      if command.admitted root state then
        perform command (fun outcome =>
          match outcome with
          | .ok value => (next (.ok value)).supervised root
          | .error _ => stop)
      else stop)

/-- Callers' code under supervision. -/
def supervise (root : RecordId) (code : κ → Occasion κ → Program κ σ Value) (body : κ)
    (occasion : Occasion κ) : Program κ σ Value :=
  (code body occasion).supervised root

theorem trims_supervised (root : RecordId) (program : Program κ σ α) :
    Trims (program.supervised root) program := by
  induction program with
  | done outcome => exact .done outcome
  | stop => exact .stop stop
  | inspect next induction => exact .inspect induction
  | record change next induction => exact .record change induction
  | perform command next induction =>
      rw [supervised]
      apply Trims.watch
      intro state
      split
      · apply Trims.perform
        intro outcome
        cases outcome with
        | ok value => exact induction (.ok value)
        | error error => exact .stop _
      · exact .stop _

variable {root : RecordId} {depth : Nat}

theorem below_execute {invoke invoke' : Invoke κ σ}
    (below : ∀ body occasion, Engine.Below (invoke body occasion) (invoke' body occasion))
    (program : Program κ σ α) :
    Engine.Below ((program.supervised root).execute invoke depth)
      (program.execute invoke' depth) :=
  below_of_trims below (trims_supervised root program) depth

theorem below_invoke (root : RecordId) (code : κ → Occasion κ → Program κ σ Value) (depth : Nat)
    (body : κ) (occasion : Occasion κ) :
    Engine.Below (invoke (supervise root code) depth body occasion)
      (invoke code depth body occasion) := by
  induction depth generalizing body occasion with
  | zero => exact Engine.below_refl _
  | succ depth induction => exact below_execute induction (code body occasion)

end Program

end ReactiveView
