import ReactiveView.Reactive.State

/-!
# Computations on the state

A computation changes the state and ends with a result or an error; the changes
stay in both cases. Callers' code may also stop the run as a whole, at any moment
at which it has control, and a run stops where callers' code would nest deeper
than its bound allows.
-/

namespace ReactiveView

set_option autoImplicit false

/-- How a computation goes. -/
inductive Course (κ σ α : Type) where
  | ended (outcome : Except Error α) (state : State κ σ)
  /-- The run is stopped within callers' code. -/
  | stopped (state : State κ σ)

namespace Course

variable {κ σ α : Type}

def state : Course κ σ α → State κ σ
  | ended _ state => state
  | stopped state => state

def ended? : Course κ σ α → Option (Except Error α × State κ σ)
  | ended outcome state => some (outcome, state)
  | stopped _ => none

end Course

/-- A computation on the state of a running view. -/
def Engine (κ σ α : Type) : Type := State κ σ → Course κ σ α

namespace Engine

variable {κ σ α β : Type}

def pure (value : α) : Engine κ σ α := fun state => .ended (.ok value) state

def fail (error : Error) : Engine κ σ α := fun state => .ended (.error error) state

def bind (first : Engine κ σ α) (second : α → Engine κ σ β) : Engine κ σ β := fun state =>
  match first state with
  | .ended (.ok value) state => second value state
  | .ended (.error error) state => .ended (.error error) state
  | .stopped state => .stopped state

instance : Monad (Engine κ σ) where
  pure := pure
  bind := bind

theorem bind_of_ok {first : Engine κ σ α} {state later : State κ σ} {value : α}
    (ended : first state = .ended (.ok value) later) (second : α → Engine κ σ β) :
    (first >>= second) state = second value later := by
  simp only [Bind.bind, bind, ended]

theorem bind_of_error {first : Engine κ σ α} {state later : State κ σ} {error : Error}
    (ended : first state = .ended (.error error) later) (second : α → Engine κ σ β) :
    (first >>= second) state = .ended (.error error) later := by
  simp only [Bind.bind, bind, ended]

theorem map_id (body : Engine κ σ α) : id <$> body = body := by
  funext state
  simp only [Functor.map, bind, Function.comp]
  cases body state with
  | ended outcome later => cases outcome <;> rfl
  | stopped => rfl

theorem bind_bind {γ : Type} (first : Engine κ σ α) (second : α → Engine κ σ β)
    (third : β → Engine κ σ γ) :
    first >>= second >>= third = first >>= fun value => second value >>= third := by
  funext state
  simp only [Bind.bind, bind]
  cases first state with
  | ended outcome later => cases outcome <;> rfl
  | stopped => rfl

instance : LawfulMonad (Engine κ σ) :=
  LawfulMonad.mk' _ map_id (fun _ _ => rfl) bind_bind

def ofExcept (outcome : Except Error α) : Engine κ σ α := fun state => .ended outcome state

def look (view : State κ σ → α) : Engine κ σ α := fun state => .ended (.ok (view state)) state

def alter (change : State κ σ → State κ σ) : Engine κ σ Unit := fun state =>
  .ended (.ok ()) (change state)

def transform (change : State κ σ → α × State κ σ) : Engine κ σ α := fun state =>
  .ended (.ok (change state).1) (change state).2

def attempt (body : Engine κ σ α) : Engine κ σ (Except Error α) := fun state =>
  match body state with
  | .ended outcome state => .ended (.ok outcome) state
  | .stopped state => .stopped state

def forEach (body : α → Engine κ σ Unit) : List α → Engine κ σ Unit
  | [] => pure ()
  | first :: rest => do
      body first
      forEach body rest

def collect (body : α → Engine κ σ β) : List α → Engine κ σ (List β)
  | [] => pure []
  | first :: rest => do
      let result ← body first
      let results ← collect body rest
      pure (result :: results)

/-- A run of a subscriber, which stays alive until the run ends. -/
def whileRunning (id : SubscriberId) (body : Engine κ σ α) : Engine κ σ α := do
  alter (State.enter id)
  let outcome ← attempt body
  alter (State.leave id)
  ofExcept outcome

def observe (id : SubscriberId) : Engine κ σ Unit := fun state =>
  match state.observer with
  | some _ => .ended (.error .nestedEvaluation) state
  | none => .ended (.ok ()) { state with observer := some ⟨id, []⟩ }

def finish : Engine κ σ (List RegistryId) := fun state =>
  .ended (.ok ((state.observer.map Observer.reads).getD [])) { state with observer := none }

/-- Runs a body with the observer slot vacated. The suspended observer comes
back afterwards. -/
def untracked (body : Engine κ σ α) : Engine κ σ α := do
  let suspended ← look State.observer
  alter (fun state => { state with observer := none })
  let outcome ← attempt body
  alter (fun state =>
    match suspended with
    | some observer => { state with observer := some observer }
    | none => state)
  ofExcept outcome

end Engine

/-- Why a caller's code runs. -/
inductive Occasion (κ : Type) where
  | updated (value : Value)
  | called (context : Context κ) (arguments : List Value)
  | notified
  | dispatched (event : String) (target : NodeId)

/-- Runs a caller's code. Only methods have results that count. -/
abbrev Invoke (κ σ : Type) : Type := κ → Occasion κ → Engine κ σ Value

end ReactiveView
