import Mathlib.Data.List.Induction
import ReactiveView.Proofs.Following

/-!
# Tracking

What the reads of an observed evaluation leave behind: the observer has collected
the registries of the slots read, each once and in the order of their first read,
and has joined each of them at its end unless it was there before.
-/

namespace ReactiveView

set_option autoImplicit false

namespace Store

/-- The registry of the slot at a place, if the place exists and is reactive. -/
def registryAt (store : Store) (place : Place) : Option RegistryId :=
  (store.slot? place).bind Slot.registry

theorem slot?_of_registryAt {store : Store} {place : Place} {registry : RegistryId}
    (attached : store.registryAt place = some registry) :
    ∃ value, store.slot? place = some ⟨value, some registry⟩ := by
  obtain ⟨⟨value, held⟩, found, same⟩ := Option.bind_eq_some_iff.mp attached
  cases same
  exact ⟨value, found⟩

theorem isSome_slot?_of_registryAt {store : Store} {place : Place} {registry : RegistryId}
    (attached : store.registryAt place = some registry) : (store.slot? place).isSome := by
  obtain ⟨value, found⟩ := slot?_of_registryAt attached
  rw [found]
  rfl

def tracked (store : Store) (glimpses : List Glimpse) : List RegistryId :=
  glimpses.filterMap (fun glimpse =>
    match glimpse with
    | .slot place => store.registryAt place
    | _ => none)

theorem mem_tracked {store : Store} {glimpses : List Glimpse} {registry : RegistryId} :
    registry ∈ store.tracked glimpses ↔
      ∃ place, .slot place ∈ glimpses ∧ store.registryAt place = some registry := by
  simp only [tracked, List.mem_filterMap]
  constructor
  · rintro ⟨glimpse, member, found⟩
    cases glimpse with
    | slot place => exact ⟨place, member, found⟩
    | _ => simp at found
  · rintro ⟨place, member, found⟩
    exact ⟨.slot place, member, found⟩

theorem SameData.registryAt {store other : Store} (same : store.SameData other) (place : Place) :
    other.registryAt place = store.registryAt place := by
  simp only [Store.registryAt, same.slot?]

theorem SameData.tracked {store other : Store} (same : store.SameData other)
    (glimpses : List Glimpse) : other.tracked glimpses = store.tracked glimpses := by
  simp only [Store.tracked, same.registryAt]

/-- Each registry of a slot exists. -/
def Ranged (store : Store) : Prop :=
  ∀ place registry, store.registryAt place = some registry →
    registry.index < store.registries.size

theorem subscribers_register_cases (store : Store) (registry : RegistryId)
    (subscriber : SubscriberId) (other : RegistryId) :
    (store.register registry subscriber).subscribers other = store.subscribers other ∨
      subscriber ∉ store.subscribers other ∧
        (store.register registry subscriber).subscribers other =
          store.subscribers other ++ [subscriber] := by
  by_cases there : registry.index < store.registries.size
  · rw [subscribers_register there]
    split
    · next both =>
        obtain ⟨rfl, absent⟩ := both
        exact .inr ⟨absent, rfl⟩
    · exact .inl rfl
  · left
    unfold register
    split
    · rfl
    · simp only [subscribers, Array.getElem?_modify]
      split
      · next same =>
          have outside : store.registries[other.index]? = none :=
            Array.getElem?_eq_none (Nat.le_of_not_lt (same ▸ there))
          simp [outside]
      · rfl

theorem size_register (store : Store) (registry : RegistryId) (subscriber : SubscriberId) :
    (store.register registry subscriber).registries.size = store.registries.size := by
  unfold register
  split
  · rfl
  · exact Array.size_modify

end Store

namespace Observer

/-- The reads of an observer after one more. -/
def see (observer : Observer) (registry : RegistryId) : Observer :=
  if registry ∈ observer.reads then observer
  else { observer with reads := observer.reads ++ [registry] }

theorem subscriber_see (observer : Observer) (registry : RegistryId) :
    (observer.see registry).subscriber = observer.subscriber := by
  unfold see
  split <;> rfl

theorem mem_reads_see {observer : Observer} {registry other : RegistryId} :
    other ∈ (observer.see registry).reads ↔ other ∈ observer.reads ∨ other = registry := by
  unfold see
  split
  · next present =>
      constructor
      · exact Or.inl
      · rintro (member | rfl)
        · exact member
        · exact present
  · simp

theorem mem_reads_foldl_see {observer : Observer} {registries : List RegistryId}
    {other : RegistryId} :
    other ∈ (registries.foldl see observer).reads ↔
      other ∈ observer.reads ∨ other ∈ registries := by
  induction registries generalizing observer with
  | nil => simp
  | cons registry rest induction =>
      rw [List.foldl_cons, induction, mem_reads_see, List.mem_cons, or_assoc]

theorem nodup_reads_foldl_see {observer : Observer} (distinct : observer.reads.Nodup)
    (registries : List RegistryId) : (registries.foldl see observer).reads.Nodup := by
  induction registries generalizing observer with
  | nil => exact distinct
  | cons registry rest induction =>
      apply induction
      unfold see
      split
      · exact distinct
      · next new =>
          refine List.nodup_append.mpr ⟨distinct, by simp, ?_⟩
          intro before member last only same
          rw [List.mem_singleton] at only
          exact new (only ▸ same ▸ member)

/-- An observer collects each registry that is new to it, once and at its first read. -/
theorem foldl_see_append (observer : Observer) (registries : List RegistryId) :
    registries.foldl see observer = ⟨observer.subscriber,
      observer.reads ++ (registries.filter (· ∉ observer.reads)).eraseDups⟩ := by
  induction registries using List.reverseRecOn with
  | nil => simp
  | append_singleton before registry induction =>
      rw [List.foldl_append, induction, List.filter_append, List.eraseDups_append]
      simp only [List.foldl_cons, List.foldl_nil, see, List.mem_append, List.mem_eraseDups]
      by_cases held : registry ∈ observer.reads
      · simp [held, List.removeAll]
      · by_cases present : registry ∈ before <;>
          simp [held, present, List.removeAll, List.eraseDups_cons]

theorem foldl_see (subscriber : SubscriberId) (registries : List RegistryId) :
    registries.foldl see ⟨subscriber, []⟩ = ⟨subscriber, registries.eraseDups⟩ := by
  simp [foldl_see_append]

end Observer

namespace State

variable {κ σ : Type}

def trackAll (state : State κ σ) (registries : List RegistryId) : State κ σ :=
  registries.foldl (fun state registry => state.track registry) state

theorem noteAll_eq_trackAll (state : State κ σ) (glimpses : List Glimpse) :
    state.noteAll glimpses = state.trackAll (state.store.tracked glimpses) := by
  induction glimpses generalizing state with
  | nil => rfl
  | cons glimpse rest induction =>
      have later := (sameData_note state glimpse).tracked rest
      have step : state.noteAll (glimpse :: rest) = (state.note glimpse).noteAll rest := rfl
      rw [step, induction, later]
      cases glimpse with
      | slot place =>
          simp only [Store.tracked, List.filterMap_cons, Store.registryAt, note, read]
          cases state.store.slot? place with
          | none => rfl
          | some slot =>
              obtain ⟨value, registry⟩ := slot
              cases registry <;> rfl
      | _ => rfl

theorem trackAll_of_unobserved {state : State κ σ} (idle : state.observer = none)
    (registries : List RegistryId) : state.trackAll registries = state := by
  induction registries with
  | nil => rfl
  | cons registry rest induction =>
      have step : state.track registry = state := by simp only [track, idle]
      simp only [trackAll, List.foldl_cons, step]
      exact induction

theorem noteAll_of_unobserved {state : State κ σ} (idle : state.observer = none)
    (glimpses : List Glimpse) : state.noteAll glimpses = state := by
  rw [noteAll_eq_trackAll, trackAll_of_unobserved idle]

theorem observer_track {state : State κ σ} {observer : Observer}
    (observed : state.observer = some observer) (registry : RegistryId) :
    (state.track registry).observer = some (observer.see registry) := by
  simp only [track, observed, Observer.see]
  split
  · exact observed
  · rfl

theorem observer_trackAll {state : State κ σ} {observer : Observer}
    (observed : state.observer = some observer) (registries : List RegistryId) :
    (state.trackAll registries).observer = some (registries.foldl Observer.see observer) := by
  induction registries generalizing state observer with
  | nil => exact observed
  | cons registry rest induction => exact induction (observer_track observed registry)

structure SameBindings (state later : State κ σ) : Prop where
  data : state.store.SameData later.store
  size : later.store.registries.size = state.store.registries.size
  subscribers : later.subscribers = state.subscribers

theorem SameBindings.trans {state later final : State κ σ} (first : state.SameBindings later)
    (second : later.SameBindings final) : state.SameBindings final :=
  ⟨first.data.trans second.data, second.size.trans first.size,
    second.subscribers.trans first.subscribers⟩

theorem sameBindings_track (state : State κ σ) (registry : RegistryId) :
    state.SameBindings (state.track registry) := by
  refine ⟨sameData_track registry state, ?_, ?_⟩
  · unfold track
    split
    · rfl
    · split
      · rfl
      · exact Store.size_register _ _ _
  · unfold track
    split
    · rfl
    · split <;> rfl

theorem sameBindings_trackAll (state : State κ σ) (registries : List RegistryId) :
    state.SameBindings (state.trackAll registries) := by
  induction registries generalizing state with
  | nil => exact ⟨Store.SameData.refl _, rfl, rfl⟩
  | cons registry rest induction =>
      exact (sameBindings_track state registry).trans (induction (state.track registry))

theorem subscribers_track_cases {state : State κ σ} {observer : Observer}
    (observed : state.observer = some observer) (registry other : RegistryId) :
    (state.track registry).store.subscribers other = state.store.subscribers other ∨
      observer.subscriber ∉ state.store.subscribers other ∧
        (state.track registry).store.subscribers other =
          state.store.subscribers other ++ [observer.subscriber] := by
  simp only [track, observed]
  split
  · exact .inl rfl
  · exact Store.subscribers_register_cases _ _ _ _

theorem subscribers_trackAll_cases {state : State κ σ} {observer : Observer}
    (observed : state.observer = some observer) (registries : List RegistryId)
    (other : RegistryId) :
    (state.trackAll registries).store.subscribers other = state.store.subscribers other ∨
      observer.subscriber ∉ state.store.subscribers other ∧
        (state.trackAll registries).store.subscribers other =
          state.store.subscribers other ++ [observer.subscriber] := by
  induction registries generalizing state observer with
  | nil => exact .inl rfl
  | cons registry rest induction =>
      have step : state.trackAll (registry :: rest) = (state.track registry).trackAll rest := rfl
      have next := induction (observer_track observed registry)
      rw [Observer.subscriber_see] at next
      rw [step]
      rcases subscribers_track_cases observed registry other with same | ⟨absent, joined⟩
      · rw [same] at next
        exact next
      · -- it is there from now on, so it does not join again
        rcases next with same | ⟨absent', _⟩
        · exact .inr ⟨absent, same.trans joined⟩
        · exact absurd (by rw [joined]; simp) absent'

theorem subscribers_track {state : State κ σ} {id : SubscriberId} {reads : List RegistryId}
    (observed : state.observer = some ⟨id, reads⟩) {registry : RegistryId}
    (there : registry.index < state.store.registries.size) (other : RegistryId) :
    (state.track registry).store.subscribers other =
      if other = registry ∧ other ∉ reads ∧ id ∉ state.store.subscribers other then
        state.store.subscribers other ++ [id]
      else state.store.subscribers other := by
  simp only [track, observed]
  by_cases read : registry ∈ reads
  · rw [if_pos read]
    split
    · next all => exact absurd (all.1 ▸ read) all.2.1
    · rfl
  · rw [if_neg read]
    simp only [Store.subscribers_register there]
    by_cases same : other = registry
    · subst same
      simp [read]
    · simp [same]

/-- The observer joins, at the end, the registries that it reads for the first time
and is not in yet. -/
theorem subscribers_trackAll {state : State κ σ} {id : SubscriberId} {reads : List RegistryId}
    (observed : state.observer = some ⟨id, reads⟩) {registries : List RegistryId}
    (there : ∀ registry ∈ registries, registry.index < state.store.registries.size)
    (other : RegistryId) :
    (state.trackAll registries).store.subscribers other =
      if other ∈ registries ∧ other ∉ reads ∧ id ∉ state.store.subscribers other then
        state.store.subscribers other ++ [id]
      else state.store.subscribers other := by
  induction registries generalizing state reads with
  | nil => simp [trackAll]
  | cons registry rest induction =>
      have first := subscribers_track observed (there registry List.mem_cons_self)
      have next := observer_track observed registry
      have see : Observer.see ⟨id, reads⟩ registry =
          ⟨id, (Observer.see ⟨id, reads⟩ registry).reads⟩ := by
        unfold Observer.see
        split <;> rfl
      rw [see] at next
      have size := (sameBindings_track state registry).size
      change ((state.track registry).trackAll rest).store.subscribers other = _
      rw [induction next (by
        intro inner member
        rw [size]
        exact there inner (List.mem_cons_of_mem _ member)), first other]
      simp only [Observer.mem_reads_see, List.mem_cons]
      by_cases same : other = registry
      · subst same
        by_cases read : other ∈ reads <;>
          by_cases joined : id ∈ state.store.subscribers other <;> simp [read, joined]
      · simp [same]

end State

end ReactiveView
