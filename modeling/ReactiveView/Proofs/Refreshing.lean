import Mathlib.Data.List.Nodup
import Mathlib.Tactic.Tauto
import ReactiveView.Proofs.Tracking
import ReactiveView.Reactive.Notification

/-!
# One evaluation of a binding

What an evaluation of a binding that calls no method does to the state: it changes
the subscriptions of this binding and its membership in registries, as its account
says, and nothing else.
-/

namespace ReactiveView

set_option autoImplicit false

namespace Store

theorem sameData_unregisterAll (store : Store) (registries : List RegistryId)
    (subscriber : SubscriberId) :
    store.SameData (store.unregisterAll registries subscriber) := by
  induction registries generalizing store with
  | nil => exact SameData.refl store
  | cons registry rest induction =>
      have first : store.SameData (store.unregister registry subscriber) := ⟨rfl, rfl⟩
      exact first.trans (induction _)

theorem size_unregisterAll (store : Store) (registries : List RegistryId)
    (subscriber : SubscriberId) :
    (store.unregisterAll registries subscriber).registries.size = store.registries.size := by
  induction registries generalizing store with
  | nil => rfl
  | cons registry rest induction =>
      have first : (store.unregister registry subscriber).registries.size =
          store.registries.size := Array.size_modify
      exact (induction _).trans first

theorem subscribers_unregisterAll (store : Store) (registries : List RegistryId)
    (subscriber : SubscriberId) (other : RegistryId) :
    (store.unregisterAll registries subscriber).subscribers other =
      if other ∈ registries then (store.subscribers other).filter (· ≠ subscriber)
      else store.subscribers other := by
  induction registries generalizing store with
  | nil => simp [unregisterAll]
  | cons registry rest induction =>
      have step : store.unregisterAll (registry :: rest) subscriber =
          (store.unregister registry subscriber).unregisterAll rest subscriber := rfl
      rw [step, induction, subscribers_unregister]
      by_cases same : other = registry
      · subst same
        by_cases again : other ∈ rest <;> simp [again]
      · simp [same]

theorem SameData.ranged {store other : Store} (same : store.SameData other)
    (size : other.registries.size = store.registries.size) (ranged : store.Ranged) :
    other.Ranged := by
  intro place registry attached
  rw [size]
  exact ranged place registry (by rw [← same.registryAt, attached])

end Store

namespace State

variable {κ σ : Type}

theorem subscriber?_changeSubscriber (state : State κ σ) (id : SubscriberId)
    (change : Subscriber κ → Subscriber κ) (other : SubscriberId) :
    (state.changeSubscriber id change).subscriber? other =
      if other = id then (state.subscriber? id).map change else state.subscriber? other := by
  simp only [changeSubscriber, subscriber?, Array.getElem?_modify]
  by_cases same : id.index = other.index
  · have equal : other = id := by cases id; cases other; simp_all
    subst equal
    simp
  · have differs : other ≠ id := fun equal => same (equal ▸ rfl)
    simp [same, differs]

theorem binding?_eq_some_iff {state : State κ σ} {id : SubscriberId} {binding : Binding κ} :
    state.binding? id = some binding ↔
      ∃ held underWay, state.subscriber? id = some ⟨.binding binding, held, underWay⟩ := by
  unfold binding?
  constructor
  · intro found
    split at found
    · next binding' held underWay present =>
        cases found
        exact ⟨held, underWay, present⟩
    · cases found
  · rintro ⟨held, underWay, present⟩
    rw [present]

theorem binding?_congr {state other : State κ σ} {id : SubscriberId}
    (same : (other.subscriber? id).map Subscriber.role =
      (state.subscriber? id).map Subscriber.role) :
    other.binding? id = state.binding? id := by
  unfold binding?
  cases left : state.subscriber? id with
  | none =>
      rw [left] at same
      rw [Option.map_eq_none_iff.mp same]
  | some subscriber =>
      rw [left] at same
      obtain ⟨subscriber', right, roles⟩ := Option.map_eq_some_iff.mp same
      rw [right]
      obtain ⟨role, held, underWay⟩ := subscriber
      obtain ⟨role', held', underWay'⟩ := subscriber'
      cases roles
      cases role <;> rfl

theorem binding?_changeBinding (state : State κ σ) (id : SubscriberId)
    (change : Binding κ → Binding κ) (other : SubscriberId) :
    (state.changeBinding id change).binding? other =
      if other = id then (state.binding? id).map change else state.binding? other := by
  simp only [changeBinding, binding?, subscriber?_changeSubscriber]
  by_cases same : other = id
  · subst same
    simp only [if_true]
    cases state.subscriber? other with
    | none => rfl
    | some subscriber =>
        obtain ⟨role, held, underWay⟩ := subscriber
        cases role <;> rfl
  · simp only [if_neg same]

theorem isAlive_changeBinding (state : State κ σ) (id : SubscriberId)
    (change : Binding κ → Binding κ) (other : SubscriberId) :
    (state.changeBinding id change).isAlive other = state.isAlive other := by
  simp only [changeBinding, isAlive, subscriber?_changeSubscriber]
  by_cases same : other = id
  · subst same
    simp only [if_true]
    cases state.subscriber? other with
    | none => rfl
    | some subscriber =>
        obtain ⟨role, held, underWay⟩ := subscriber
        cases role <;> rfl
  · simp only [if_neg same]

theorem changeBinding_congr {state : State κ σ} {id : SubscriberId} {binding : Binding κ}
    (found : state.binding? id = some binding) {change change' : Binding κ → Binding κ}
    (same : change binding = change' binding) :
    state.changeBinding id change = state.changeBinding id change' := by
  obtain ⟨held, underWay, present⟩ := binding?_eq_some_iff.mp found
  simp only [changeBinding, changeSubscriber]
  congr 1
  apply Array.ext_getElem?
  intro index
  simp only [Array.getElem?_modify]
  split
  · next here =>
      change state.subscribers[id.index]? = _ at present
      rw [← here, present]
      simp only [Option.map_some, same]
  · rfl

theorem subscriber?_changeBinding_of_ne (state : State κ σ) {id other : SubscriberId}
    (differs : other ≠ id) (change : Binding κ → Binding κ) :
    (state.changeBinding id change).subscriber? other = state.subscriber? other := by
  simp only [changeBinding, subscriber?_changeSubscriber, if_neg differs]

end State

namespace Binding

variable {κ : Type}

def account (binding : Binding κ) (data : Store) : Account Value :=
  binding.formula.reading binding.context data

/-- The distinct registries of the reactive slots that an evaluation on given data
reads, in the order of their first read. -/
def reads (binding : Binding κ) (data : Store) : List RegistryId :=
  (data.tracked (binding.account data).glimpses).eraseDups

/-- What an evaluation leaves a binding subscribed to: what it read, and after a
failure what the binding was subscribed to before, followed by what is new. -/
def subscriptionsAfter (binding : Binding κ) (evaluation : Evaluation) : List RegistryId :=
  match evaluation.outcome with
  | .ok _ => binding.reads evaluation.data
  | .error _ =>
      evaluation.earlier ++
        (binding.reads evaluation.data).filter (· ∉ evaluation.earlier)

/-- The subscriptions that a successful evaluation on given data ends. -/
def stale (binding : Binding κ) (data : Store) : List RegistryId :=
  match (binding.account data).outcome with
  | .ok _ => binding.subscriptions.filter (· ∉ binding.reads data)
  | .error _ => []

/-- A binding after an evaluation on given data. -/
def evaluated (binding : Binding κ) (data : Store) : Binding κ :=
  let evaluation : Evaluation := ⟨data, binding.subscriptions, (binding.account data).outcome⟩
  { binding with
    subscriptions := binding.subscriptionsAfter evaluation
    latest := some evaluation }

theorem nodup_subscriptions_evaluated {binding : Binding κ}
    (distinct : binding.subscriptions.Nodup) (data : Store) :
    (binding.evaluated data).subscriptions.Nodup := by
  have none : (⟨⟨0⟩, []⟩ : Observer).reads.Nodup := List.nodup_nil
  have reads := Observer.nodup_reads_foldl_see none (data.tracked (binding.account data).glimpses)
  rw [Observer.foldl_see] at reads
  change (binding.reads data).Nodup at reads
  simp only [evaluated, subscriptionsAfter]
  split
  · exact reads
  · apply List.Nodup.append distinct (reads.filter _)
    intro registry before new
    simp only [List.mem_filter, decide_not, Bool.not_eq_true', decide_eq_false_iff_not] at new
    exact new.2 before

theorem mem_subscriptions_evaluated {binding : Binding κ} {data : Store}
    {registry : RegistryId} :
    registry ∈ (binding.evaluated data).subscriptions ↔
      registry ∉ binding.stale data ∧
        (registry ∈ binding.subscriptions ∨ registry ∈ binding.reads data) := by
  simp only [evaluated, subscriptionsAfter, stale]
  split
  · simp only [List.mem_filter, decide_not, Bool.not_eq_true',
      decide_eq_false_iff_not]
    tauto
  · simp only [List.mem_append, List.mem_filter, decide_not, Bool.not_eq_true',
      decide_eq_false_iff_not, List.not_mem_nil, not_false_eq_true, true_and]
    tauto

end Binding

namespace State

variable {κ σ : Type}

def observing (state : State κ σ) (id : SubscriberId) : State κ σ :=
  { state with observer := some ⟨id, []⟩ }

/-- The state after the reads of an evaluation, which is still under way. -/
def seen (state : State κ σ) (id : SubscriberId) (binding : Binding κ) : State κ σ :=
  (state.observing id).trackAll (state.store.tracked (binding.account state.store).glimpses)

def joined (state : State κ σ) (id : SubscriberId) (binding : Binding κ) : State κ σ :=
  { state.seen id binding with observer := none }

/-- The state after an evaluation of a binding. -/
def evaluated (state : State κ σ) (id : SubscriberId) (binding : Binding κ) : State κ σ :=
  (state.joined id binding).reconcile id (binding.reads state.store) state.store
    (binding.account state.store).outcome

section Evaluated

variable {state : State κ σ} {id : SubscriberId} {binding : Binding κ}

theorem sameBindings_joined (state : State κ σ) (id : SubscriberId) (binding : Binding κ) :
    state.SameBindings (state.joined id binding) := by
  have all := sameBindings_trackAll (state.observing id)
    (state.store.tracked (binding.account state.store).glimpses)
  exact ⟨all.data, all.size, all.subscribers⟩

theorem binding?_joined (state : State κ σ) (id : SubscriberId) (binding : Binding κ)
    (other : SubscriberId) : (state.joined id binding).binding? other = state.binding? other := by
  simp only [binding?, subscriber?, (sameBindings_joined state id binding).subscribers]

theorem isAlive_joined (state : State κ σ) (id : SubscriberId) (binding : Binding κ)
    (other : SubscriberId) : (state.joined id binding).isAlive other = state.isAlive other := by
  simp only [isAlive, subscriber?, (sameBindings_joined state id binding).subscribers]

/-- The reads at most add the binding at the end of a registry. -/
theorem subscribers_joined_cases (state : State κ σ) (id : SubscriberId) (binding : Binding κ)
    (registry : RegistryId) :
    (state.joined id binding).store.subscribers registry = state.store.subscribers registry ∨
      id ∉ state.store.subscribers registry ∧
        (state.joined id binding).store.subscribers registry =
          state.store.subscribers registry ++ [id] := by
  have observed : (state.observing id).observer = some ⟨id, []⟩ := rfl
  exact subscribers_trackAll_cases observed _ registry

theorem subscribers_joined (ranged : state.store.Ranged) (id : SubscriberId)
    (binding : Binding κ) (registry : RegistryId) :
    (state.joined id binding).store.subscribers registry =
      if registry ∈ binding.reads state.store ∧ id ∉ state.store.subscribers registry then
        state.store.subscribers registry ++ [id]
      else state.store.subscribers registry := by
  have there : ∀ registry ∈ state.store.tracked (binding.account state.store).glimpses,
      registry.index < state.store.registries.size := by
    intro registry member
    obtain ⟨place, -, attached⟩ := Store.mem_tracked.mp member
    exact ranged place registry attached
  have observed : (state.observing id).observer = some ⟨id, []⟩ := rfl
  have all := subscribers_trackAll observed there registry
  simp only [List.not_mem_nil, not_false_eq_true, true_and] at all
  simp only [Binding.reads, List.mem_eraseDups]
  exact all

/-- An evaluation leaves the registries that are stale and changes this one binding. -/
theorem evaluated_eq (found : state.binding? id = some binding) :
    state.evaluated id binding =
      ((state.joined id binding).changeStore
        (·.unregisterAll (binding.stale state.store) id)).changeBinding id
          (fun _ => binding.evaluated state.store) := by
  have here : (state.joined id binding).binding? id = some binding := by
    rw [binding?_joined, found]
  cases ended : (binding.account state.store).outcome with
  | ok value =>
      simp only [evaluated, reconcile, here, Binding.stale, ended]
      have left (change : Store → Store) :
          ((state.joined id binding).changeStore change).binding? id = some binding := here
      apply changeBinding_congr (left _)
      simp only [Binding.evaluated, Binding.subscriptionsAfter, ended]
  | error error =>
      simp only [evaluated, reconcile, here, Binding.stale, ended]
      apply changeBinding_congr here
      simp only [Binding.evaluated, Binding.subscriptionsAfter, ended]

theorem observer_evaluated (found : state.binding? id = some binding) :
    (state.evaluated id binding).observer = none := by
  rw [evaluated_eq found]
  rfl

theorem sameData_evaluated (found : state.binding? id = some binding) :
    state.store.SameData (state.evaluated id binding).store := by
  rw [evaluated_eq found]
  exact (sameBindings_joined state id binding).data.trans (Store.sameData_unregisterAll _ _ _)

theorem size_evaluated (found : state.binding? id = some binding) :
    (state.evaluated id binding).store.registries.size = state.store.registries.size := by
  rw [evaluated_eq found]
  exact (Store.size_unregisterAll _ _ _).trans (sameBindings_joined state id binding).size

theorem binding?_evaluated (found : state.binding? id = some binding) (other : SubscriberId) :
    (state.evaluated id binding).binding? other =
      if other = id then some (binding.evaluated state.store) else state.binding? other := by
  have here (change : Store → Store) (other : SubscriberId) :
      ((state.joined id binding).changeStore change).binding? other = state.binding? other :=
    binding?_joined state id binding other
  rw [evaluated_eq found, binding?_changeBinding, here, here, found]
  rfl

theorem isAlive_evaluated (found : state.binding? id = some binding) (other : SubscriberId) :
    (state.evaluated id binding).isAlive other = state.isAlive other := by
  rw [evaluated_eq found, isAlive_changeBinding]
  exact isAlive_joined state id binding other

theorem subscriber?_evaluated (found : state.binding? id = some binding) {other : SubscriberId}
    (differs : other ≠ id) :
    (state.evaluated id binding).subscriber? other = state.subscriber? other := by
  have same := (sameBindings_joined state id binding).subscribers
  rw [evaluated_eq found, subscriber?_changeBinding_of_ne _ differs]
  simp only [changeStore, subscriber?, same]

theorem subscribers_evaluated (found : state.binding? id = some binding)
    (registry : RegistryId) :
    (state.evaluated id binding).store.subscribers registry =
      if registry ∈ binding.stale state.store then
        ((state.joined id binding).store.subscribers registry).filter (· ≠ id)
      else (state.joined id binding).store.subscribers registry := by
  rw [evaluated_eq found]
  exact Store.subscribers_unregisterAll _ _ _ _

/-- No other subscriber joins or leaves. -/
theorem mem_subscribers_evaluated_of_ne (found : state.binding? id = some binding)
    {other : SubscriberId} (differs : other ≠ id) (registry : RegistryId) :
    other ∈ (state.evaluated id binding).store.subscribers registry ↔
      other ∈ state.store.subscribers registry := by
  have joined : other ∈ (state.joined id binding).store.subscribers registry ↔
      other ∈ state.store.subscribers registry := by
    rcases subscribers_joined_cases state id binding registry with same | ⟨-, added⟩
    · rw [same]
    · simp [added, differs]
  rw [subscribers_evaluated found]
  split
  · simp [differs, joined]
  · exact joined

theorem mem_subscribers_evaluated_self (found : state.binding? id = some binding)
    (ranged : state.store.Ranged) {registry : RegistryId}
    (before : id ∈ state.store.subscribers registry ↔ registry ∈ binding.subscriptions) :
    id ∈ (state.evaluated id binding).store.subscribers registry ↔
      registry ∈ (binding.evaluated state.store).subscriptions := by
  have joined : id ∈ (state.joined id binding).store.subscribers registry ↔
      registry ∈ binding.subscriptions ∨ registry ∈ binding.reads state.store := by
    rw [subscribers_joined ranged, ← before]
    by_cases there : id ∈ state.store.subscribers registry <;>
      by_cases read : registry ∈ binding.reads state.store <;> simp [there, read]
  rw [subscribers_evaluated found, Binding.mem_subscriptions_evaluated]
  split
  · next stale => simp [stale]
  · next kept =>
      rw [joined]
      simp [kept]

theorem filter_subscribers_evaluated (found : state.binding? id = some binding)
    (registry : RegistryId) :
    (state.store.subscribers registry).filter
        (· ∈ (state.evaluated id binding).store.subscribers registry) =
      ((state.evaluated id binding).store.subscribers registry).filter
        (· ∈ state.store.subscribers registry) := by
  rw [subscribers_evaluated found]
  rcases subscribers_joined_cases state id binding registry with same | ⟨absent, added⟩
  · rw [same]
    split
    · rw [List.filter_filter]
      apply List.filter_congr
      intro other member
      simp [member]
    · rfl
  · have rest : (state.store.subscribers registry).filter (· ≠ id) =
        state.store.subscribers registry := by
      apply List.filter_eq_self.mpr
      intro other member
      simp only [ne_eq, decide_eq_true_eq]
      rintro rfl
      exact absent member
    rw [added, List.filter_append, rest]
    split
    · simp
    · have shared : (state.store.subscribers registry).filter
          (· ∈ state.store.subscribers registry ++ [id]) =
            (state.store.subscribers registry).filter (· ∈ state.store.subscribers registry) := by
        apply List.filter_congr
        intro other member
        simp [member]
      rw [shared, List.filter_append]
      simp [absent]

end Evaluated

theorem subscriber?_enter (state : State κ σ) (id other : SubscriberId) :
    (state.enter id).subscriber? other =
      if other = id then
        (state.subscriber? id).map (fun subscriber =>
          { subscriber with underWay := subscriber.underWay + 1 })
      else state.subscriber? other :=
  subscriber?_changeSubscriber state id _ other

theorem binding?_changeSubscriber (state : State κ σ) (id : SubscriberId)
    {change : Subscriber κ → Subscriber κ}
    (same : ∀ subscriber, (change subscriber).role = subscriber.role) (other : SubscriberId) :
    (state.changeSubscriber id change).binding? other = state.binding? other := by
  apply binding?_congr
  rw [subscriber?_changeSubscriber]
  split
  · next here =>
      rw [here, Option.map_map]
      congr 1
      funext subscriber
      exact same subscriber
  · rfl

theorem isAlive_changeSubscriber_of_ne (state : State κ σ) {id other : SubscriberId}
    (differs : other ≠ id) (change : Subscriber κ → Subscriber κ) :
    (state.changeSubscriber id change).isAlive other = state.isAlive other := by
  simp only [isAlive, subscriber?_changeSubscriber, if_neg differs]

end State

namespace Engine

variable {κ σ : Type}

/-- An evaluation of a binding by its account. -/
theorem evaluateBinding_eq (invoke : Invoke κ σ) (id : SubscriberId) {binding : Binding κ}
    (plain : binding.formula.callsNone binding.context.methods = true) {state : State κ σ}
    (idle : state.observer = none) :
    evaluateBinding invoke id binding state =
      .ended (binding.account state.store).outcome (state.evaluated id binding) := by
  have body : evaluateFormula invoke binding.context binding.formula (state.observing id) =
      .ended (binding.account state.store).outcome (state.seen id binding) := by
    rw [(follows_evaluateFormula invoke _ _ plain).ends (state.observing id),
      State.noteAll_eq_trackAll]
    rfl
  have collected : (state.seen id binding).observer = some ⟨id, binding.reads state.store⟩ := by
    have observed : (state.observing id).observer = some ⟨id, []⟩ := rfl
    rw [State.seen, State.observer_trackAll observed, Observer.foldl_see]
    rfl
  have data : (look State.store : Engine κ σ Store) state = .ended (.ok state.store) state := rfl
  have start : observe id state = .ended (.ok ()) (state.observing id) := by
    simp only [observe, idle]
    rfl
  have run : attempt (evaluateFormula invoke binding.context binding.formula)
      (state.observing id) =
        .ended (.ok (binding.account state.store).outcome) (state.seen id binding) := by
    simp only [attempt, body]
  have stop : finish (state.seen id binding) =
      .ended (.ok (binding.reads state.store)) (state.joined id binding) := by
    simp only [finish, collected]
    rfl
  rw [evaluateBinding, bind_of_ok data, bind_of_ok start, bind_of_ok run, bind_of_ok stop]
  rfl

end Engine

end ReactiveView
