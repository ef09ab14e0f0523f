import Mathlib.Algebra.BigOperators.Group.List.Basic
import Mathlib.Algebra.Order.BigOperators.Group.Finset
import ReactiveView.Proofs.ReadSet

/-!
# Instrumentation

Making data reactive gives registries to slots that have none, new and without
subscribers, and changes nothing else. It reaches every slot of every container
that is reachable from where it starts.
-/

namespace ReactiveView.Store

set_option autoImplicit false

/-- The same data with more registries: slots keep what they hold and the registry
they have, and registries keep their subscribers. -/
structure Instruments (store later : Store) : Prop where
  records : later.records.size = store.records.size
  lists : later.lists.size = store.lists.size
  peek : ∀ place, later.peek place = store.peek place
  kept : ∀ place registry, store.registryAt place = some registry →
    later.registryAt place = some registry
  subscribers : ∀ registry, later.subscribers registry = store.subscribers registry
  ranged : store.Ranged → later.Ranged

namespace Instruments

variable {store later final : Store}

theorem refl (store : Store) : store.Instruments store :=
  ⟨rfl, rfl, fun _ => rfl, fun _ _ => id, fun _ => rfl, id⟩

theorem trans (first : store.Instruments later) (second : later.Instruments final) :
    store.Instruments final where
  records := second.records.trans first.records
  lists := second.lists.trans first.lists
  peek := fun place => (second.peek place).trans (first.peek place)
  kept := fun place registry attached =>
    second.kept place registry (first.kept place registry attached)
  subscribers := fun registry =>
    (second.subscribers registry).trans (first.subscribers registry)
  ranged := fun ranged => second.ranged (first.ranged ranged)

theorem presence (instruments : store.Instruments later) (place : Place) :
    (later.slot? place).isSome = (store.slot? place).isSome := by
  have same := congrArg Option.isSome (instruments.peek place)
  simpa only [Store.peek, Option.isSome_map] using same

theorem value (instruments : store.Instruments later) {place : Place} {slot : Slot}
    (found : later.slot? place = some slot) :
    ∃ before, store.slot? place = some before ∧ before.value = slot.value := by
  have same := instruments.peek place
  simp only [Store.peek, found, Option.map_some] at same
  exact Option.map_eq_some_iff.mp same.symm

theorem elements (instruments : store.Instruments later) (list : ListId) :
    (later.items list).map Slot.value = (store.items list).map Slot.value := by
  apply List.ext_getElem?
  intro index
  simp only [List.getElem?_map]
  exact instruments.peek (.item list index)

theorem agreesOn (instruments : store.Instruments later) (glimpses : List Glimpse) :
    store.AgreesOn later glimpses := by
  intro glimpse _
  cases glimpse with
  | slot place => exact instruments.peek place
  | presence place => exact instruments.presence place
  | length list => simpa [Agrees] using congrArg List.length (instruments.elements list)
  | text value => exact text_agrees fun list _ => instruments.elements list

theorem nested (instruments : store.Instruments later) (outer inner : Container) :
    inner ∈ later.nested outer ↔ inner ∈ store.nested outer := by
  simp only [mem_nested_iff]
  constructor
  · rintro ⟨place, slot, inside, found, holds⟩
    obtain ⟨before, present, same⟩ := instruments.value found
    exact ⟨place, before, inside, present, same ▸ holds⟩
  · rintro ⟨place, before, inside, present, holds⟩
    have there : (later.slot? place).isSome := by rw [instruments.presence, present]; rfl
    obtain ⟨slot, found⟩ := Option.isSome_iff_exists.mp there
    obtain ⟨before', present', same⟩ := instruments.value found
    rw [present] at present'
    cases present'
    exact ⟨place, slot, inside, found, same ▸ holds⟩

theorem reaches (instruments : store.Instruments later) (first last : Container) :
    later.Reaches first last ↔ store.Reaches first last := by
  have same : (fun outer inner => inner ∈ later.nested outer) =
      (fun outer inner => inner ∈ store.nested outer) := by
    funext outer inner
    exact propext (instruments.nested outer inner)
  simp only [Reaches, same]

theorem reactive (instruments : store.Instruments later) {container : Container}
    (reactive : store.Reactive container) : later.Reactive container := by
  intro place slot inside found
  obtain ⟨before, present, same⟩ := instruments.value found
  obtain ⟨registry, attached⟩ := Option.isSome_iff_exists.mp (reactive place before inside present)
  have kept := instruments.kept place registry
    (by simp only [registryAt, present, Option.bind_some, attached])
  simp only [registryAt, found, Option.bind_some] at kept
  rw [kept]
  rfl

end Instruments

theorem sameData_newRegistry (store : Store) : store.SameData store.newRegistry.2 := ⟨rfl, rfl⟩

theorem subscribers_put (store : Store) (place : Place) (slot : Slot) (registry : RegistryId) :
    (store.put place slot).subscribers registry = store.subscribers registry := by
  cases place <;> rfl

theorem size_registries_put (store : Store) (place : Place) (slot : Slot) :
    (store.put place slot).registries.size = store.registries.size := by
  cases place <;> rfl

theorem size_records_put (store : Store) (place : Place) (slot : Slot) :
    (store.put place slot).records.size = store.records.size := by
  cases place with
  | field record key => exact Array.size_modify
  | item list index => rfl

theorem size_lists_put (store : Store) (place : Place) (slot : Slot) :
    (store.put place slot).lists.size = store.lists.size := by
  cases place with
  | field record key => rfl
  | item list index => exact Array.size_modify

theorem attach_of_plain {store : Store} {place : Place} {value : Value}
    (found : store.slot? place = some ⟨value, none⟩) :
    store.attach place =
      store.newRegistry.2.put place ⟨value, some ⟨store.registries.size⟩⟩ := by
  simp only [attach, found, newRegistry]

theorem slot?_attach_of_plain {store : Store} {place : Place} {value : Value}
    (found : store.slot? place = some ⟨value, none⟩) (other : Place) :
    (store.attach place).slot? other =
      if other = place then some ⟨value, some ⟨store.registries.size⟩⟩
      else store.slot? other := by
  have same := store.sameData_newRegistry
  have there : (store.newRegistry.2.slot? place).isSome := by
    simp only [same.slot?, found, Option.isSome_some]
  rw [attach_of_plain found, slot?_put there, same.slot?]

theorem attach_of_not_plain {store : Store} {place : Place}
    (other : ∀ value, store.slot? place ≠ some ⟨value, none⟩) : store.attach place = store := by
  simp only [attach]

theorem instruments_attach (store : Store) (place : Place) :
    store.Instruments (store.attach place) := by
  by_cases plain : ∃ value, store.slot? place = some ⟨value, none⟩
  · obtain ⟨value, found⟩ := plain
    have slots := slot?_attach_of_plain found
    refine ⟨?_, ?_, ?_, ?_, ?_, ?_⟩
    · rw [attach_of_plain found, size_records_put]
      rfl
    · rw [attach_of_plain found, size_lists_put]
      rfl
    · intro other
      simp only [Store.peek, slots]
      split
      · next same =>
          subst same
          simp only [found, Option.map_some]
      · rfl
    · intro other registry attached
      have differs : other ≠ place := by
        rintro rfl
        simp [registryAt, found] at attached
      simpa only [registryAt, slots, if_neg differs] using attached
    · intro registry
      rw [attach_of_plain found, subscribers_put, subscribers_newRegistry]
    · intro ranged other registry attached
      have size : (store.attach place).registries.size = store.registries.size + 1 := by
        rw [attach_of_plain found, size_registries_put]
        exact Array.size_push _
      rw [size]
      simp only [registryAt, slots] at attached
      split at attached
      · cases attached
        exact Nat.lt_succ_self _
      · exact Nat.lt_succ_of_lt (ranged other registry attached)
  · have same := attach_of_not_plain (fun value found => plain ⟨value, found⟩)
    rw [same]
    exact Instruments.refl store

theorem instruments_foldl_attach (store : Store) (places : List Place) :
    store.Instruments (places.foldl attach store) := by
  induction places generalizing store with
  | nil => exact Instruments.refl store
  | cons place rest induction => exact (instruments_attach store place).trans (induction _)

theorem isSome_registryAt_attach {store : Store} {place : Place}
    (there : (store.slot? place).isSome) : ((store.attach place).registryAt place).isSome := by
  obtain ⟨⟨value, registry⟩, found⟩ := Option.isSome_iff_exists.mp there
  cases registry with
  | none => simp [registryAt, slot?_attach_of_plain found]
  | some registry =>
      have attached : store.registryAt place = some registry := by simp [registryAt, found]
      have kept := (instruments_attach store place).kept place registry attached
      simp [kept]

theorem isSome_registryAt_foldl_attach {store : Store} {places : List Place} {place : Place}
    (member : place ∈ places) (there : (store.slot? place).isSome) :
    ((places.foldl attach store).registryAt place).isSome := by
  induction places generalizing store with
  | nil => cases member
  | cons first rest induction =>
      rw [List.foldl_cons]
      rcases List.mem_cons.mp member with rfl | later
      · obtain ⟨registry, attached⟩ := Option.isSome_iff_exists.mp (isSome_registryAt_attach there)
        rw [(instruments_foldl_attach _ rest).kept place registry attached]
        rfl
      · exact induction later (by rw [(instruments_attach store first).presence]; exact there)

theorem mem_places {store : Store} {place : Place} (there : (store.slot? place).isSome) :
    place ∈ store.places place.container := by
  cases place with
  | field record key =>
      apply List.mem_map_of_mem
      simpa [slot?, Dictionary.find?, isSome_lookup, Dictionary.keys] using there
  | item list index =>
      apply List.mem_map_of_mem
      simpa [slot?] using there

theorem total_append (counts further : List Nat) :
    total (counts ++ further) = total counts + total further :=
  List.sum_append

theorem total_singleton (count : Nat) : total [count] = count := rfl

theorem total_containers (store : Store) :
    total (store.containers.map (fun container => (store.slots container).length)) =
      store.slotCount := by
  simp only [containers, List.map_append, List.map_map, total_append, slotCount]
  congr 2
  · apply List.ext_getElem
    · simp
    · intro index inside inside'
      simp at inside'
      simp [slots, fields, Dictionary.size, inside']
  · apply List.ext_getElem
    · simp
    · intro index inside inside'
      simp at inside'
      simp [slots, items, inside']

/-- Distinct containers have together no more slots than there are. -/
theorem total_slots_le {store : Store} {found : List Container} (distinct : found.Nodup) :
    total (found.map (fun container => (store.slots container).length)) ≤ store.slotCount := by
  rw [← total_containers]
  change List.sum _ ≤ List.sum _
  rw [← List.sum_toFinset _ distinct, ← List.sum_toFinset _ store.nodup_containers]
  apply Finset.sum_le_sum_of_ne_zero
  intro container _ full
  exact List.mem_toFinset.mpr (mem_containers_of_slots full)

/-- What a container found holds is found as well, or pending. -/
def Explored (store : Store) (pending found : List Container) : Prop :=
  ∀ container ∈ found, ∀ inner ∈ store.nested container, inner ∈ found ∨ inner ∈ pending

section Exploring

variable {store : Store} {first : Container} {pending found : List Container}

theorem Explored.skip (explored : store.Explored (first :: pending) found)
    (known : first ∈ found) : store.Explored pending found := by
  intro container member inner holds
  rcases explored container member inner holds with among | waiting
  · exact .inl among
  · rcases List.mem_cons.mp waiting with rfl | waiting
    · exact .inl known
    · exact .inr waiting

theorem Explored.enter (explored : store.Explored (first :: pending) found) :
    store.Explored (store.nested first ++ pending) (found ++ [first]) := by
  intro container member inner holds
  rcases List.mem_append.mp member with before | last
  · rcases explored container before inner holds with among | waiting
    · exact .inl (List.mem_append_left _ among)
    · rcases List.mem_cons.mp waiting with rfl | waiting
      · exact .inl (by simp)
      · exact .inr (List.mem_append_right _ waiting)
  · rw [List.mem_singleton] at last
    exact .inr (List.mem_append_left _ (last ▸ holds))

theorem mem_follow_of_found (rounds : Nat) {container : Container} (member : container ∈ found) :
    container ∈ store.follow rounds pending found := by
  induction rounds generalizing pending found with
  | zero => exact member
  | succ rounds induction =>
      cases pending with
      | nil => exact member
      | cons first rest =>
          unfold follow
          split
          · exact induction member
          · exact induction (List.mem_append_left _ member)

theorem room_of_fresh {rounds : Nat} (distinct : found.Nodup) (fresh : first ∉ found)
    (enough : (first :: pending).length + store.slotCount ≤
      rounds + 1 + total (found.map (fun container => (store.slots container).length))) :
    (found ++ [first]).Nodup ∧
      (store.nested first ++ pending).length + store.slotCount ≤
        rounds + total ((found ++ [first]).map
          (fun container => (store.slots container).length)) := by
  constructor
  · exact List.Nodup.append distinct (List.nodup_singleton first)
      (List.disjoint_singleton.mpr fresh)
  · have short : (store.nested first).length ≤ (store.slots first).length :=
      List.length_filterMap_le _ _
    simp only [List.length_cons, List.length_append, List.map_append, List.map_cons,
      List.map_nil, total_append, total_singleton] at enough ⊢
    omega

/-- The rounds suffice: what is pending fits in them beside the slots of the
containers not yet found. So the result holds all that is pending, and all that
its own slots hold. -/
theorem follow_complete (rounds : Nat) (distinct : found.Nodup)
    (enough : pending.length + store.slotCount ≤
      rounds + total (found.map (fun container => (store.slots container).length)))
    (explored : store.Explored pending found) :
    (∀ container ∈ pending, container ∈ store.follow rounds pending found) ∧
    store.Explored [] (store.follow rounds pending found) := by
  induction rounds generalizing pending found with
  | zero =>
      have bound : _ ≤ store.slotCount := total_slots_le distinct
      have done : pending = [] := List.eq_nil_of_length_eq_zero (by omega)
      subst done
      exact ⟨fun _ => nofun, explored⟩
  | succ rounds induction =>
      cases pending with
      | nil => exact ⟨fun _ => nofun, explored⟩
      | cons first rest =>
          unfold follow
          split
          · next known =>
              have shorter : rest.length + store.slotCount ≤
                  rounds + total (found.map (fun container => (store.slots container).length)) := by
                simp only [List.length_cons] at enough
                omega
              obtain ⟨waiting, closed⟩ := induction distinct shorter (explored.skip known)
              refine ⟨?_, closed⟩
              intro container member
              rcases List.mem_cons.mp member with rfl | member
              · exact mem_follow_of_found rounds known
              · exact waiting container member
          · next fresh =>
              obtain ⟨distinct', room⟩ := room_of_fresh distinct fresh enough
              obtain ⟨waiting, closed⟩ := induction distinct' room explored.enter
              refine ⟨?_, closed⟩
              intro container member
              rcases List.mem_cons.mp member with rfl | member
              · exact mem_follow_of_found rounds (by simp)
              · exact waiting container (List.mem_append_right _ member)

end Exploring

/-- All that is reached from a start is found. -/
theorem mem_reachable {store : Store} {starts : List Container} {first last : Container}
    (start : first ∈ starts) (path : store.Reaches first last) :
    last ∈ store.reachable starts := by
  obtain ⟨found, closed⟩ : (∀ container ∈ starts, container ∈ store.reachable starts) ∧
      store.Explored [] (store.reachable starts) := by
    apply follow_complete (store.slotCount + starts.length + 1) List.nodup_nil
    · simp only [List.map_nil, total, List.foldr_nil]
      omega
    · intro container member
      cases member
  induction path with
  | refl => exact found first start
  | tail _ holds induction =>
      exact (closed _ induction _ holds).resolve_right List.not_mem_nil

/-- Instrumentation changes nothing but registries, and every container reached from
a start is reactive afterwards. -/
theorem instruments_instrumentFrom (store : Store) (starts : List Container) :
    store.Instruments (store.instrumentFrom starts) :=
  instruments_foldl_attach store _

theorem reactive_instrumentFrom {store : Store} {starts : List Container}
    {first last : Container} (start : first ∈ starts) (path : store.Reaches first last) :
    (store.instrumentFrom starts).Reactive last := by
  intro place slot inside found
  have there : (store.slot? place).isSome := by
    rw [← (instruments_instrumentFrom store starts).presence, found]
    rfl
  have member : place ∈ (store.reachable starts).flatMap store.places := by
    apply List.mem_flatMap.mpr
    refine ⟨last, mem_reachable start path, ?_⟩
    rw [← inside]
    exact mem_places there
  have attached := isSome_registryAt_foldl_attach member there
  change ((store.instrumentFrom starts).registryAt place).isSome at attached
  simpa only [registryAt, found, Option.bind_some] using attached

end ReactiveView.Store
