import ReactiveView.Proofs.Refreshing

/-!
# Subscriptions and registries agree

Whenever a caller has control, each binding is in the registries of its
subscriptions and in no other; its subscriptions are what its latest evaluation
says, and none once it is gone. Each step concerns one subscriber, and for every
other one nothing changes.
-/

namespace ReactiveView

set_option autoImplicit false

namespace Binding

variable {κ : Type}

/-- A binding of a formula that calls no method. -/
structure Plain (binding : Binding κ) : Prop where
  callsNone : binding.formula.callsNone binding.context.methods = true

/-- The subscriptions are what the latest evaluation says, and its outcome is that of
its account. -/
def Traced (binding : Binding κ) : Prop :=
  ∃ evaluation, binding.latest = some evaluation ∧
    evaluation.outcome = (binding.account evaluation.data).outcome ∧
    binding.subscriptions = binding.subscriptionsAfter evaluation

theorem traced_evaluated (binding : Binding κ) (data : Store) : (binding.evaluated data).Traced :=
  ⟨⟨data, binding.subscriptions, (binding.account data).outcome⟩, rfl, rfl, rfl⟩

end Binding

namespace State

variable {κ σ : Type}

/-- Two states that differ in nothing but one subscriber and where it is registered. -/
structure SameButFor (id : SubscriberId) (state later : State κ σ) : Prop where
  data : state.store.SameData later.store
  size : later.store.registries.size = state.store.registries.size
  others : ∀ other, other ≠ id → later.subscriber? other = state.subscriber? other
  members : ∀ other, other ≠ id → ∀ registry,
    other ∈ later.store.subscribers registry ↔ other ∈ state.store.subscribers registry

namespace SameButFor

variable {id other : SubscriberId} {state later final : State κ σ}

theorem trans (first : state.SameButFor id later) (second : later.SameButFor id final) :
    state.SameButFor id final where
  data := first.data.trans second.data
  size := second.size.trans first.size
  others := fun other differs => (second.others other differs).trans (first.others other differs)
  members := fun other differs registry =>
    (second.members other differs registry).trans (first.members other differs registry)

theorem binding? (same : state.SameButFor id later) (differs : other ≠ id) :
    later.binding? other = state.binding? other := by
  simp only [State.binding?, same.others other differs]

theorem isAlive (same : state.SameButFor id later) (differs : other ≠ id) :
    later.isAlive other = state.isAlive other := by
  simp only [State.isAlive, same.others other differs]

end SameButFor

theorem sameButFor_changeSubscriber (state : State κ σ) (id : SubscriberId)
    (change : Subscriber κ → Subscriber κ) :
    state.SameButFor id (state.changeSubscriber id change) where
  data := Store.SameData.refl _
  size := rfl
  others := fun other differs => by rw [subscriber?_changeSubscriber, if_neg differs]
  members := fun _ _ _ => Iff.rfl

theorem sameButFor_changeBinding (state : State κ σ) (id : SubscriberId)
    (change : Binding κ → Binding κ) : state.SameButFor id (state.changeBinding id change) :=
  sameButFor_changeSubscriber state id _

theorem sameButFor_evaluated {state : State κ σ} {id : SubscriberId} {binding : Binding κ}
    (found : state.binding? id = some binding) :
    state.SameButFor id (state.evaluated id binding) where
  data := sameData_evaluated found
  size := size_evaluated found
  others := fun _ differs => subscriber?_evaluated found differs
  members := fun _ differs registry => mem_subscribers_evaluated_of_ne found differs registry

theorem sameButFor_addSubscriber (state : State κ σ) (subscriber : Subscriber κ) :
    state.SameButFor ⟨state.subscribers.size⟩ (state.addSubscriber subscriber).2 where
  data := Store.SameData.refl _
  size := rfl
  others := by
    intro other differs
    simp only [addSubscriber, subscriber?, Array.getElem?_push]
    split
    · next last => exact absurd (congrArg SubscriberId.mk last) differs
    · rfl
  members := fun _ _ _ => Iff.rfl

theorem sameButFor_unregisterAll (state : State κ σ) (id : SubscriberId)
    (registries : List RegistryId) :
    state.SameButFor id (state.changeStore (·.unregisterAll registries id)) where
  data := Store.sameData_unregisterAll _ _ _
  size := Store.size_unregisterAll _ _ _
  others := fun _ _ => rfl
  members := by
    intro other differs registry
    change other ∈ (state.store.unregisterAll registries id).subscribers registry ↔ _
    rw [Store.subscribers_unregisterAll]
    split
    · simp [differs]
    · rfl

def release (id : SubscriberId) (change : Subscriber κ → Subscriber κ) (state : State κ σ) :
    State κ σ :=
  (state.changeSubscriber id change).settle id

/-- A subscriber stays what it is, and is no more alive than before. -/
structure Releases (change : Subscriber κ → Subscriber κ) : Prop where
  role : ∀ subscriber, (change subscriber).role = subscriber.role
  isAlive : ∀ subscriber, (change subscriber).isAlive = true → subscriber.isAlive = true

theorem releases_leave : Releases (fun subscriber : Subscriber κ =>
    { subscriber with underWay := subscriber.underWay - 1 }) := by
  refine ⟨fun _ => rfl, ?_⟩
  rintro ⟨role, held, underWay⟩ alive
  simp only [Subscriber.isAlive, Bool.or_eq_true, decide_eq_true_eq] at alive ⊢
  rcases alive with held | running
  · exact .inl held
  · right
    omega

theorem releases_drop : Releases (fun subscriber : Subscriber κ =>
    { subscriber with held := false }) := by
  refine ⟨fun _ => rfl, ?_⟩
  rintro ⟨role, held, underWay⟩ alive
  simp only [Subscriber.isAlive, Bool.false_or] at alive ⊢
  rw [alive, Bool.or_true]

section Release

variable {state : State κ σ} {id : SubscriberId} {change : Subscriber κ → Subscriber κ}

theorem settle_of_alive (alive : state.isAlive id = true) : state.settle id = state := by
  unfold settle
  cases state.binding? id with
  | none => rfl
  | some binding => simp only [alive, if_true]

theorem settle_of_gone {binding : Binding κ} (found : state.binding? id = some binding)
    (gone : state.isAlive id = false) :
    state.settle id =
      (state.changeStore (·.unregisterAll binding.subscriptions id)).changeBinding id
        (fun binding => { binding with subscriptions := [] }) := by
  simp only [settle, found, gone, Bool.false_eq_true, if_false]

theorem settle_of_none (absent : state.binding? id = none) : state.settle id = state := by
  simp only [settle, absent]

theorem observer_settle (state : State κ σ) (id : SubscriberId) :
    (state.settle id).observer = state.observer := by
  unfold settle
  split
  · rfl
  · split <;> rfl

theorem sameButFor_settle (state : State κ σ) (id : SubscriberId) :
    state.SameButFor id (state.settle id) := by
  cases found : state.binding? id with
  | none =>
      rw [settle_of_none found]
      exact sameButFor_unregisterAll state id []
  | some binding =>
      cases alive : state.isAlive id with
      | true =>
          rw [settle_of_alive alive]
          exact sameButFor_unregisterAll state id []
      | false =>
          rw [settle_of_gone found alive]
          exact (sameButFor_unregisterAll state id _).trans (sameButFor_changeBinding _ id _)

theorem sameButFor_release (state : State κ σ) (id : SubscriberId)
    (change : Subscriber κ → Subscriber κ) : state.SameButFor id (state.release id change) :=
  (sameButFor_changeSubscriber state id change).trans (sameButFor_settle _ id)

theorem sameButFor_reconcile {state : State κ σ} {id : SubscriberId} (reads : List RegistryId)
    (data : Store) (outcome : Except Error Value) :
    state.SameButFor id (state.reconcile id reads data outcome) := by
  unfold reconcile
  split
  · exact sameButFor_unregisterAll state id []
  · exact (sameButFor_unregisterAll state id _).trans (sameButFor_changeBinding _ id _)
  · exact sameButFor_changeBinding state id _

theorem isAlive_settle (state : State κ σ) (id other : SubscriberId) :
    (state.settle id).isAlive other = state.isAlive other := by
  cases found : state.binding? id with
  | none => rw [settle_of_none found]
  | some binding =>
      cases alive : state.isAlive id with
      | true => rw [settle_of_alive alive]
      | false =>
          rw [settle_of_gone found alive, isAlive_changeBinding]
          rfl

theorem isAlive_of_release (releases : Releases change) {other : SubscriberId}
    (alive : (state.release id change).isAlive other = true) : state.isAlive other = true := by
  rw [release, isAlive_settle] at alive
  by_cases same : other = id
  · subst same
    simp only [isAlive, subscriber?_changeSubscriber, if_true] at alive ⊢
    cases found : state.subscriber? other with
    | none => simp [found] at alive
    | some subscriber =>
        rw [found] at alive
        exact releases.isAlive subscriber alive
  · rwa [isAlive_changeSubscriber_of_ne state same] at alive

theorem binding?_release_of_alive (releases : Releases change) {other : SubscriberId}
    (alive : (state.release id change).isAlive other = true) :
    (state.release id change).binding? other = state.binding? other := by
  by_cases same : other = id
  · subst same
    rw [release, isAlive_settle] at alive
    rw [release, settle_of_alive alive, binding?_changeSubscriber state other releases.role]
  · exact (sameButFor_release state id change).binding? same

/-- A binding that is gone is still about what it was about. -/
theorem context_release (releases : Releases change) {other : SubscriberId} {after : Binding κ}
    (found : (state.release id change).binding? other = some after) :
    ∃ before, state.binding? other = some before ∧ after.context = before.context := by
  have kept := binding?_changeSubscriber state id releases.role other
  by_cases same : other = id
  · subst same
    rw [release] at found
    cases present : (state.changeSubscriber other change).binding? other with
    | none =>
        rw [settle_of_none present, present] at found
        cases found
    | some before =>
        refine ⟨before, kept ▸ present, ?_⟩
        cases alive : (state.changeSubscriber other change).isAlive other with
        | true =>
            rw [settle_of_alive alive, present] at found
            cases found
            rfl
        | false =>
            rw [settle_of_gone present alive, binding?_changeBinding, if_pos rfl] at found
            change ((state.changeSubscriber other change).binding? other).map _ = _ at found
            rw [present] at found
            cases found
            rfl
  · rw [(sameButFor_release state id change).binding? same] at found
    exact ⟨after, found, rfl⟩

end Release

structure SameCore (state later : State κ σ) : Prop where
  store : later.store = state.store
  observer : later.observer = state.observer
  subscribers : later.subscribers = state.subscribers

theorem SameCore.refl (state : State κ σ) : state.SameCore state := ⟨rfl, rfl, rfl⟩

theorem SameCore.subscriber? {state later : State κ σ} (same : state.SameCore later)
    (id : SubscriberId) : later.subscriber? id = state.subscriber? id := by
  simp only [State.subscriber?, same.subscribers]

theorem SameCore.binding? {state later : State κ σ} (same : state.SameCore later)
    (id : SubscriberId) : later.binding? id = state.binding? id := by
  simp only [State.binding?, same.subscriber?]

theorem SameCore.isAlive {state later : State κ σ} (same : state.SameCore later)
    (id : SubscriberId) : later.isAlive id = state.isAlive id := by
  simp only [State.isAlive, same.subscriber?]

/-- The state after an evaluation of a binding when its reaction starts, or when there
is none because the evaluation failed. -/
def attempted (state : State κ σ) (id : SubscriberId) (binding : Binding κ) : State κ σ :=
  match (binding.account state.store).outcome with
  | .ok value => (state.evaluated id binding).hand id value
  | .error _ => state.evaluated id binding

theorem attempted_of_ok {state : State κ σ} {id : SubscriberId} {binding : Binding κ}
    {value : Value} (ended : (binding.account state.store).outcome = .ok value) :
    state.attempted id binding = (state.evaluated id binding).hand id value := by
  simp only [attempted, ended]

theorem attempted_of_error {state : State κ σ} {id : SubscriberId} {binding : Binding κ}
    {error : Error} (ended : (binding.account state.store).outcome = .error error) :
    state.attempted id binding = state.evaluated id binding := by
  simp only [attempted, ended]

/-- A subscriber is a plain binding, in the registries of its subscriptions. -/
structure Linked (state : State κ σ) (id : SubscriberId) : Prop where
  role : ∀ subscriber, state.subscriber? id = some subscriber →
    ∃ binding, subscriber.role = .binding binding
  plain : ∀ binding, state.binding? id = some binding → binding.Plain
  joined : ∀ registry, id ∈ state.store.subscribers registry ↔
    ∃ binding, state.binding? id = some binding ∧ registry ∈ binding.subscriptions
  distinct : ∀ binding, state.binding? id = some binding → binding.subscriptions.Nodup

/-- What is more, while it is alive its subscriptions are what its latest evaluation
says, and afterwards it has none. -/
structure Exact (state : State κ σ) (id : SubscriberId) : Prop extends Linked state id where
  traced : ∀ binding, state.binding? id = some binding → state.isAlive id = true → binding.Traced
  left : ∀ binding, state.binding? id = some binding → state.isAlive id = false →
    binding.subscriptions = []

/-- No evaluation is in progress, and all subscribers are exact. -/
structure Coherent (state : State κ σ) : Prop where
  idle : state.observer = none
  ranged : state.store.Ranged
  exact : ∀ id, state.Exact id

theorem Coherent.alive {state : State κ σ} (coherent : state.Coherent) {id : SubscriberId}
    {registry : RegistryId} (member : id ∈ state.store.subscribers registry) :
    state.isAlive id = true := by
  obtain ⟨binding, found, subscribed⟩ := ((coherent.exact id).joined registry).mp member
  cases alive : state.isAlive id with
  | true => rfl
  | false =>
      rw [(coherent.exact id).left binding found alive] at subscribed
      cases subscribed

/-- The registries of slots exist, and whoever is in a registry is a subscriber. -/
structure Enrolled (state : State κ σ) : Prop where
  ranged : state.store.Ranged
  present : ∀ registry, ∀ id ∈ state.store.subscribers registry,
    id.index < state.subscribers.size

theorem Coherent.enrolled {state : State κ σ} (coherent : state.Coherent) : state.Enrolled where
  ranged := coherent.ranged
  present := by
    intro registry id member
    obtain ⟨binding, found, -⟩ := ((coherent.exact id).joined registry).mp member
    obtain ⟨held, underWay, present⟩ := binding?_eq_some_iff.mp found
    exact (Array.getElem?_eq_some_iff.mp present).1

theorem coherent_of_store {store : Store} (ranged : store.Ranged)
    (empty : ∀ registry, store.subscribers registry = []) (host : σ) :
    State.Coherent ({ State.initial host with store } : State κ σ) where
  idle := rfl
  ranged := ranged
  exact := by
    intro id
    have none : State.binding? ({ State.initial host with store } : State κ σ) id = none := rfl
    refine ⟨⟨?_, ?_, ?_, ?_⟩, ?_, ?_⟩
    · intro subscriber impossible
      cases impossible
    · intro binding impossible
      cases impossible
    · intro registry
      change id ∈ store.subscribers registry ↔ _
      simp [empty, none]
    · intro binding impossible
      cases impossible
    · intro binding impossible
      cases impossible
    · intro binding impossible
      cases impossible

section Steps

variable {state later : State κ σ} {id : SubscriberId}

theorem Exact.congr (exact : state.Exact id) (same : later.subscriber? id = state.subscriber? id)
    (members : ∀ registry,
      id ∈ later.store.subscribers registry ↔ id ∈ state.store.subscribers registry) :
    later.Exact id := by
  have bindings : later.binding? id = state.binding? id := by simp only [State.binding?, same]
  have alive : later.isAlive id = state.isAlive id := by simp only [State.isAlive, same]
  refine ⟨⟨?_, ?_, ?_, ?_⟩, ?_, ?_⟩
  · rw [same]
    exact exact.role
  · rw [bindings]
    exact exact.plain
  · intro registry
    rw [members registry, bindings]
    exact exact.joined registry
  · rw [bindings]
    exact exact.distinct
  · rw [bindings, alive]
    exact exact.traced
  · rw [bindings, alive]
    exact exact.left

theorem SameButFor.exact {other : SubscriberId} (same : state.SameButFor id later)
    (differs : other ≠ id) (exact : state.Exact other) : later.Exact other :=
  exact.congr (same.others other differs) (same.members other differs)

/-- A step that concerns one subscriber keeps a state coherent if this one is exact
afterwards. -/
theorem SameButFor.coherent (same : state.SameButFor id later)
    (idle : later.observer = none) (ranged : state.store.Ranged)
    (others : ∀ other, other ≠ id → state.Exact other) (exact : later.Exact id) :
    later.Coherent where
  idle := idle
  ranged := same.data.ranged same.size ranged
  exact := by
    intro other
    by_cases here : other = id
    · exact here ▸ exact
    · exact same.exact here (others other here)

theorem isAlive_enter_self {binding : Binding κ} (found : state.binding? id = some binding) :
    (state.enter id).isAlive id = true := by
  obtain ⟨held, underWay, present⟩ := binding?_eq_some_iff.mp found
  simp [isAlive, subscriber?_enter, present, Subscriber.isAlive]

theorem binding?_enter (state : State κ σ) (id other : SubscriberId) :
    (state.enter id).binding? other = state.binding? other := by
  rw [enter, binding?_changeSubscriber]
  exact fun _ => rfl

theorem Linked.changeSubscriber (linked : state.Linked id)
    {change : Subscriber κ → Subscriber κ}
    (roles : ∀ subscriber, (change subscriber).role = subscriber.role) :
    (state.changeSubscriber id change).Linked id := by
  have bindings := binding?_changeSubscriber state id roles
  refine ⟨?_, ?_, ?_, ?_⟩
  · intro subscriber found
    rw [subscriber?_changeSubscriber, if_pos rfl] at found
    obtain ⟨before, present, rfl⟩ := Option.map_eq_some_iff.mp found
    rw [roles]
    exact linked.role before present
  · rw [bindings]
    exact linked.plain
  · rw [bindings]
    exact linked.joined
  · rw [bindings]
    exact linked.distinct

theorem subscriber?_addSubscriber (state : State κ σ) (subscriber : Subscriber κ) :
    (state.addSubscriber subscriber).2.subscriber? ⟨state.subscribers.size⟩ = some subscriber :=
  Array.getElem?_push_size

theorem binding?_addSubscriber (state : State κ σ) (binding : Binding κ) :
    (state.addSubscriber ⟨.binding binding, true, 0⟩).2.binding? ⟨state.subscribers.size⟩ =
      some binding :=
  binding?_eq_some_iff.mpr ⟨true, 0, subscriber?_addSubscriber state _⟩

theorem Enrolled.absent (enrolled : state.Enrolled) (registry : RegistryId) :
    ⟨state.subscribers.size⟩ ∉ state.store.subscribers registry :=
  fun member => Nat.lt_irrefl _ (enrolled.present registry _ member)

theorem Enrolled.linked_addSubscriber (enrolled : state.Enrolled) {binding : Binding κ}
    (plain : binding.Plain) (new : binding.subscriptions = []) :
    (state.addSubscriber ⟨.binding binding, true, 0⟩).2.Linked ⟨state.subscribers.size⟩ := by
  have here := subscriber?_addSubscriber state ⟨.binding binding, true, 0⟩
  have found := binding?_addSubscriber state binding
  refine ⟨?_, ?_, ?_, ?_⟩
  · intro subscriber present
    cases here.symm.trans present
    exact ⟨binding, rfl⟩
  · intro other present
    cases found.symm.trans present
    exact plain
  · intro registry
    have absent : ⟨state.subscribers.size⟩ ∉
        (state.addSubscriber ⟨.binding binding, true, 0⟩).2.store.subscribers registry :=
      enrolled.absent registry
    simp [found, new, absent]
  · intro other present
    cases found.symm.trans present
    rw [new]
    exact List.nodup_nil

/-- After an evaluation a live binding is exact. -/
theorem exact_evaluated {binding : Binding κ} (linked : state.Linked id)
    (ranged : state.store.Ranged) (found : state.binding? id = some binding)
    (alive : state.isAlive id = true) : (state.evaluated id binding).Exact id := by
  have here : (state.evaluated id binding).binding? id = some (binding.evaluated state.store) := by
    rw [binding?_evaluated found, if_pos rfl]
  have before (registry : RegistryId) :
      id ∈ state.store.subscribers registry ↔ registry ∈ binding.subscriptions := by
    rw [linked.joined registry, found]
    simp
  refine ⟨⟨?_, ?_, ?_, ?_⟩, ?_, ?_⟩
  · intro subscriber present
    obtain ⟨held, underWay, same⟩ := binding?_eq_some_iff.mp here
    rw [same] at present
    cases present
    exact ⟨_, rfl⟩
  · intro after same
    cases here.symm.trans same
    exact ⟨(linked.plain binding found).callsNone⟩
  · intro registry
    rw [mem_subscribers_evaluated_self found ranged (before registry), here]
    simp
  · intro after same
    cases here.symm.trans same
    exact Binding.nodup_subscriptions_evaluated (linked.distinct binding found) _
  · intro after same _
    cases here.symm.trans same
    exact binding.traced_evaluated _
  · intro after same gone
    rw [isAlive_evaluated found, alive] at gone
    cases gone

theorem exact_hand (exact : state.Exact id) (value : Value) : (state.hand id value).Exact id := by
  have bindings : (state.hand id value).binding? id =
      (state.binding? id).map (fun binding => { binding with handed := some value }) := by
    rw [hand, binding?_changeBinding, if_pos rfl]
  have alive : (state.hand id value).isAlive id = state.isAlive id := isAlive_changeBinding _ _ _ _
  refine ⟨⟨?_, ?_, ?_, ?_⟩, ?_, ?_⟩
  · intro subscriber found
    rw [hand, changeBinding, subscriber?_changeSubscriber, if_pos rfl] at found
    obtain ⟨before, present, rfl⟩ := Option.map_eq_some_iff.mp found
    obtain ⟨binding, role⟩ := exact.role before present
    simp [role]
  · intro after found
    rw [bindings] at found
    obtain ⟨binding, present, rfl⟩ := Option.map_eq_some_iff.mp found
    exact ⟨(exact.plain binding present).callsNone⟩
  · intro registry
    rw [bindings]
    change id ∈ state.store.subscribers registry ↔ _
    rw [exact.joined registry]
    cases state.binding? id <;> simp
  · intro after found
    rw [bindings] at found
    obtain ⟨binding, present, rfl⟩ := Option.map_eq_some_iff.mp found
    exact exact.distinct binding present
  · intro after found living
    rw [bindings] at found
    rw [alive] at living
    obtain ⟨binding, present, rfl⟩ := Option.map_eq_some_iff.mp found
    exact exact.traced binding present living
  · intro after found gone
    rw [bindings] at found
    rw [alive] at gone
    obtain ⟨binding, present, rfl⟩ := Option.map_eq_some_iff.mp found
    exact exact.left binding present gone

theorem exact_settle_of_gone {binding : Binding κ} (linked : state.Linked id)
    (found : state.binding? id = some binding) (gone : state.isAlive id = false) :
    (state.settle id).Exact id := by
  have here : (state.settle id).binding? id = some { binding with subscriptions := [] } := by
    rw [settle_of_gone found gone, binding?_changeBinding, if_pos rfl]
    change (state.binding? id).map _ = _
    rw [found]
    rfl
  refine ⟨⟨?_, ?_, ?_, ?_⟩, ?_, ?_⟩
  · intro subscriber present
    obtain ⟨held, underWay, same⟩ := binding?_eq_some_iff.mp here
    rw [same] at present
    cases present
    exact ⟨_, rfl⟩
  · intro after same
    cases here.symm.trans same
    exact ⟨(linked.plain binding found).callsNone⟩
  · intro registry
    rw [here]
    have none : id ∉ (state.settle id).store.subscribers registry := by
      rw [settle_of_gone found gone]
      change id ∉ (state.store.unregisterAll binding.subscriptions id).subscribers registry
      rw [Store.subscribers_unregisterAll]
      split
      · simp
      · next apart =>
          rw [linked.joined registry, found]
          simpa using apart
    simp [none]
  · intro after same
    cases here.symm.trans same
    exact List.nodup_nil
  · intro after same alive
    rw [isAlive_settle, gone] at alive
    cases alive
  · intro after same _
    cases here.symm.trans same
    rfl

theorem exact_release {change : Subscriber κ → Subscriber κ} (releases : Releases change)
    (exact : state.Exact id) : (state.release id change).Exact id := by
  have linked := exact.toLinked.changeSubscriber releases.role
  have bindings := binding?_changeSubscriber state id releases.role
  cases alive : (state.changeSubscriber id change).isAlive id with
  | true =>
      have still : (state.release id change).isAlive id = true := by
        rw [release, isAlive_settle, alive]
      have before := isAlive_of_release releases still
      rw [release, settle_of_alive alive]
      refine ⟨linked, ?_, ?_⟩
      · intro binding found _
        rw [bindings] at found
        exact exact.traced binding found before
      · intro binding _ gone
        rw [alive] at gone
        cases gone
  | false =>
      cases found : (state.changeSubscriber id change).binding? id with
      | none =>
          rw [release, settle_of_none found]
          refine ⟨linked, ?_, ?_⟩ <;>
            · intro binding impossible
              rw [found] at impossible
              cases impossible
      | some binding => exact exact_settle_of_gone linked found alive

theorem Exact.sameCore (exact : state.Exact id) (same : state.SameCore later) : later.Exact id :=
  exact.congr (same.subscriber? id) (fun _ => by rw [same.store])

theorem Coherent.sameCore (coherent : state.Coherent) (same : state.SameCore later) :
    later.Coherent where
  idle := same.observer.trans coherent.idle
  ranged := same.store ▸ coherent.ranged
  exact := fun id => (coherent.exact id).sameCore same

theorem Enrolled.sameCore (enrolled : state.Enrolled) (same : state.SameCore later) :
    later.Enrolled where
  ranged := same.store ▸ enrolled.ranged
  present := by
    intro registry id member
    rw [same.subscribers]
    exact enrolled.present registry id (same.store ▸ member)

theorem Coherent.attempted (coherent : state.Coherent) {start : State κ σ}
    (same : state.SameButFor id start) (linked : start.Linked id) {binding : Binding κ}
    (found : start.binding? id = some binding) (alive : start.isAlive id = true) :
    (start.attempted id binding).Coherent := by
  have ranged := same.data.ranged same.size coherent.ranged
  have whole := same.trans (sameButFor_evaluated found)
  have exact := exact_evaluated linked ranged found alive
  have others := fun other (_ : other ≠ id) => coherent.exact other
  unfold State.attempted
  split
  · next value _ =>
      exact (whole.trans (sameButFor_changeBinding _ id _)).coherent (observer_evaluated found)
        coherent.ranged others (exact_hand exact value)
  · exact whole.coherent (observer_evaluated found) coherent.ranged others exact

theorem Coherent.release (coherent : state.Coherent) (id : SubscriberId)
    {change : Subscriber κ → Subscriber κ} (releases : Releases change) :
    (state.release id change).Coherent := by
  refine (sameButFor_release state id change).coherent ?_ coherent.ranged
    (fun other _ => coherent.exact other) (exact_release releases (coherent.exact id))
  rw [State.release, observer_settle]
  exact coherent.idle

theorem Coherent.changeStore (coherent : state.Coherent) {change : Store → Store}
    (ranged : (change state.store).Ranged)
    (same : ∀ registry, (change state.store).subscribers registry =
      state.store.subscribers registry) :
    (state.changeStore change).Coherent := by
  refine ⟨coherent.idle, ranged, ?_⟩
  intro id
  refine (coherent.exact id).congr rfl ?_
  intro registry
  change id ∈ (change state.store).subscribers registry ↔ _
  rw [same]

end Steps

end State

end ReactiveView
