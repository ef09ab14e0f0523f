import ReactiveView.Proofs.Attributing
import ReactiveView.Proofs.Changes
import ReactiveView.Proofs.Instrumentation

/-!
# Observation changes no result

An evaluation that calls no method has the same result whether it is observed, not observed,
or untracked within an observed one, and whether the data are reactive or not. Only if it is
observed does it leave anything behind: the observer has joined the registries of the slots
that were read, each at its end.
-/

namespace ReactiveView

set_option autoImplicit false

variable {κ σ α : Type}

namespace State

variable {state : State κ σ} {id : SubscriberId} {reads read : List RegistryId}

/-- What an observed evaluation leaves behind when it reads slots of some registries. -/
structure Noted (state : State κ σ) (id : SubscriberId) (reads read : List RegistryId)
    (later : State κ σ) : Prop where
  data : state.store.SameData later.store
  size : later.store.registries.size = state.store.registries.size
  /-- The observer has joined the registries that were new to it, unless it was there. -/
  joined : ∀ registry, later.store.subscribers registry =
    if registry ∈ read ∧ registry ∉ reads ∧ id ∉ state.store.subscribers registry then
      state.store.subscribers registry ++ [id]
    else state.store.subscribers registry
  /-- These are all in which it was not yet, if it was in those that it had read before. -/
  each : (∀ registry ∈ reads, id ∈ state.store.subscribers registry) →
    ∀ registry, later.store.subscribers registry =
      if registry ∈ read ∧ id ∉ state.store.subscribers registry then
        state.store.subscribers registry ++ [id]
      else state.store.subscribers registry
  /-- It has collected those that were new to it, and nothing else has changed. -/
  rest : later = { state with
    store := later.store
    observer := some ⟨id, reads ++ (read.filter (· ∉ reads)).eraseDups⟩ }

theorem track_eq (state : State κ σ) (registry : RegistryId) :
    state.track registry = { state with
      store := (state.track registry).store
      observer := (state.track registry).observer } := by
  unfold track
  split
  · rfl
  · split <;> rfl

theorem trackAll_eq (state : State κ σ) (registries : List RegistryId) :
    state.trackAll registries = { state with
      store := (state.trackAll registries).store
      observer := (state.trackAll registries).observer } := by
  induction registries generalizing state with
  | nil => rfl
  | cons registry rest induction =>
      have step : state.trackAll (registry :: rest) = (state.track registry).trackAll rest := rfl
      have first := state.track_eq registry
      have later := induction (state.track registry)
      rw [step]
      generalize state.track registry = next at first later
      rw [later, first]

theorem noted_trackAll (observed : state.observer = some ⟨id, reads⟩)
    (there : ∀ registry ∈ read, registry.index < state.store.registries.size) :
    state.Noted id reads read (state.trackAll read) := by
  have same := sameBindings_trackAll state read
  have joined := subscribers_trackAll observed there
  refine ⟨same.data, same.size, joined, ?_, ?_⟩
  · intro before registry
    rw [joined]
    by_cases old : registry ∈ reads
    · simp [before registry old]
    · simp [old]
  · rw [← Observer.foldl_see_append ⟨id, reads⟩, ← observer_trackAll observed]
    exact trackAll_eq state read

end State

namespace Engine.Follows

variable {body : Engine κ σ α} {reading : Reading α} {state : State κ σ}

theorem unobserved (follows : body.Follows reading) (state : State κ σ)
    (vacant : state.observer = none) : body state = .ended (reading state.store).outcome state := by
  rw [follows.ends, State.noteAll_of_unobserved vacant]

theorem observed (follows : body.Follows reading) (state : State κ σ)
    (ranged : state.store.Ranged) {id : SubscriberId} {reads : List RegistryId}
    (observed : state.observer = some ⟨id, reads⟩) :
    ∃ later, body state = .ended (reading state.store).outcome later ∧
      state.Noted id reads (state.store.tracked (reading state.store).glimpses) later := by
  refine ⟨_, follows.ends state, ?_⟩
  rw [State.noteAll_eq_trackAll]
  apply State.noted_trackAll observed
  intro registry member
  obtain ⟨place, -, attached⟩ := Store.mem_tracked.mp member
  exact ranged place registry attached

theorem untracked (follows : body.Follows reading) (state : State κ σ) :
    untracked body state = .ended (reading state.store).outcome state := by
  have vacant := follows.unobserved { state with observer := none } rfl
  rw [untracked_eq, vacant]
  simp

theorem instrumented (follows : body.Follows reading) {other : State κ σ}
    (instruments : state.store.Instruments other.store) :
    ∃ later, body other = .ended (reading state.store).outcome later := by
  have same := follows.determined _ _ (instruments.agreesOn (reading state.store).glimpses)
  rw [← same]
  exact ⟨_, follows.ends other⟩

end Engine.Follows

namespace Engine

/-- In which ways a formula may be evaluated without an effect on its result, and what each of
them leaves behind. The account of the formula tells which slots are read. -/
structure Impartial (invoke : Invoke κ σ) (context : Context κ) (formula : Formula)
    (state : State κ σ) : Prop where
  vacant : evaluateFormula invoke context formula { state with observer := none } =
    .ended (formula.reading context state.store).outcome { state with observer := none }
  observed : ∀ id reads, ∃ later,
    evaluateFormula invoke context formula { state with observer := some ⟨id, reads⟩ } =
      .ended (formula.reading context state.store).outcome later ∧
    state.Noted id reads
      (state.store.tracked (formula.reading context state.store).glimpses) later
  /-- The whole state stays as it is, with the observer and all that it has read. -/
  untracked : ∀ observer,
    evaluateUntracked invoke context formula { state with observer } =
      .ended (formula.reading context state.store).outcome { state with observer }
  instrumented : ∀ record observer, ∃ later,
    evaluateFormula invoke context formula
        { state with store := state.store.instrument record, observer } =
      .ended (formula.reading context state.store).outcome later

/-- Whatever the data and the registries, evaluating an expression or a template that calls no
method gives one result: observed, not observed, untracked, or on data that have been made
reactive. -/
theorem tracking_changes_no_result (invoke : Invoke κ σ) (context : Context κ)
    (formula : Formula) (plain : formula.callsNone context.methods = true)
    (state : State κ σ) (ranged : state.store.Ranged) :
    Impartial invoke context formula state := by
  have follows := follows_evaluateFormula invoke context formula plain
  refine ⟨follows.unobserved _ rfl, ?_, fun observer => follows.untracked _, ?_⟩
  · intro id reads
    obtain ⟨later, ended, noted⟩ :=
      follows.observed { state with observer := some ⟨id, reads⟩ } ranged rfl
    exact ⟨later, ended, noted.data, noted.size, noted.joined, noted.each, noted.rest⟩
  · intro record observer
    exact follows.instrumented (state.store.instruments_instrumentFrom [.record record])

def greeting : Store :=
  (Store.empty.newRecord [("name", .text "Ada"), ("count", .number 2)]).2.attach
    (.field ⟨0⟩ "name")

/-- A template with both of them as one text in it. -/
def greeted : Formula :=
  .template ⟨[.text "Hi ", .expression (.binary .add (.identifier "name") (.identifier "count"))]⟩

theorem greeting_ranged : greeting.Ranged :=
  (Store.instruments_attach _ _).ranged (Store.ranged_newRecord Store.ranged_empty _)

theorem tracking_changes_no_result_greeting :
    (∃ later : State Unit Unit,
      evaluateFormula (fun _ _ => fail .nestedEvaluation) ⟨⟨0⟩, .empty⟩ greeted
          (underWay greeting) = .ended (.ok (.text "Hi Ada2")) later ∧
        later.observer = some ⟨⟨7⟩, [⟨0⟩]⟩ ∧ later.store.subscribers ⟨0⟩ = [⟨7⟩]) ∧
    evaluateUntracked (fun _ _ => fail .nestedEvaluation) ⟨⟨0⟩, .empty⟩ greeted
      (underWay greeting) = .ended (.ok (.text "Hi Ada2")) (underWay greeting) ∧
    ∃ later : State Unit Unit,
      evaluateFormula (fun _ _ => fail .nestedEvaluation) ⟨⟨0⟩, .empty⟩ greeted
        { underWay greeting with store := greeting.instrument ⟨0⟩ } =
          .ended (.ok (.text "Hi Ada2")) later := by
  have impartial := tracking_changes_no_result (fun _ _ => fail .nestedEvaluation)
    (⟨⟨0⟩, .empty⟩ : Context Unit) greeted rfl (underWay greeting) greeting_ranged
  have result : (greeted.reading (⟨⟨0⟩, .empty⟩ : Context Unit) greeting).outcome =
      .ok (.text "Hi Ada2") := rfl
  obtain ⟨later, ended, noted⟩ := impartial.observed ⟨7⟩ []
  refine ⟨⟨later, ended.trans (by rw [← result]; rfl), ?_, ?_⟩, ?_, ?_⟩
  · rw [noted.rest]
    rfl
  · exact noted.joined ⟨0⟩
  · exact (impartial.untracked (some ⟨⟨7⟩, []⟩)).trans (by rw [← result]; rfl)
  · obtain ⟨later, ended⟩ := impartial.instrumented ⟨0⟩ (some ⟨⟨7⟩, []⟩)
    exact ⟨later, ended.trans (by rw [← result]; rfl)⟩

end Engine

end ReactiveView
