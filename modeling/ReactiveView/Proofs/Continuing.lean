import ReactiveView.Proofs.Changes
import ReactiveView.Proofs.Refreshing

/-!
# Data that go on

The data of a run only grow and change in single fields. What an evaluation takes
from them stays the same unless it reads a field that changes, and all that is
reached from an instrumented root stays reactive.
-/

namespace ReactiveView

set_option autoImplicit false

namespace Store

variable {store later final : Store} {changed changed' : Place → Prop}

def Has (store : Store) : Container → Prop
  | .record record => record.index < store.records.size
  | .list list => list.index < store.lists.size

/-- Slots hold only containers that exist. -/
def Closed (store : Store) : Prop :=
  ∀ place slot, store.slot? place = some slot → slot.value.Within store.Has

theorem has_of_slot? {place : Place} (there : (store.slot? place).isSome) :
    store.Has place.container := by
  by_contra outside
  cases place with
  | field record key =>
      simp [slot?, fields_of_not_lt outside, Dictionary.find?, Dictionary.empty] at there
  | item list index => simp [slot?, items_of_not_lt outside] at there

theorem Closed.reaches (closed : store.Closed) {first last : Container}
    (start : store.Has first) (path : store.Reaches first last) : store.Has last := by
  induction path with
  | refl => exact start
  | tail _ holds induction =>
      obtain ⟨place, slot, -, found, inner⟩ := mem_nested_iff.mp holds
      exact closed place slot found _ inner

theorem Closed.renders (closed : store.Closed) {value : Value} (inside : value.Within store.Has)
    {list : ListId} (renders : store.Renders value list) : store.Has (.list list) := by
  obtain ⟨first, rfl, path⟩ := renders
  induction path with
  | refl => exact inside (.list first) rfl
  | tail _ holds induction =>
      obtain ⟨slot, member, inner⟩ := holds
      obtain ⟨index, bound, rfl⟩ := List.getElem_of_mem member
      apply closed (.item _ index) _ (List.getElem?_eq_getElem bound)
      rw [inner]
      rfl

/-- All that a store holds is held later, but for what is at changed places. -/
structure Continues (store later : Store) (changed : Place → Prop) : Prop where
  has : ∀ container, store.Has container → later.Has container
  peek : ∀ place, store.Has place.container → ¬ changed place →
    later.peek place = store.peek place
  presence : ∀ place, store.Has place.container →
    (later.slot? place).isSome = (store.slot? place).isSome
  elements : ∀ list, store.Has (.list list) →
    (later.items list).map Slot.value = (store.items list).map Slot.value
  kept : ∀ place registry, store.registryAt place = some registry →
    later.registryAt place = some registry

namespace Continues

theorem refl (store : Store) : store.Continues store (fun _ => False) :=
  ⟨fun _ => id, fun _ _ _ => rfl, fun _ _ => rfl, fun _ _ => rfl, fun _ _ => id⟩

theorem trans (first : store.Continues later changed) (second : later.Continues final changed') :
    store.Continues final (fun place => changed place ∨ changed' place) where
  has := fun container there => second.has container (first.has container there)
  peek := by
    intro place there same
    rw [second.peek place (first.has _ there) (fun change => same (.inr change)),
      first.peek place there (fun change => same (.inl change))]
  presence := fun place there =>
    (second.presence place (first.has _ there)).trans (first.presence place there)
  elements := fun list there =>
    (second.elements list (first.has _ there)).trans (first.elements list there)
  kept := fun place registry attached =>
    second.kept place registry (first.kept place registry attached)

theorem reactive (continues : store.Continues later changed) {container : Container}
    (there : store.Has container) (reactive : store.Reactive container) :
    later.Reactive container := by
  intro place slot inside found
  have present : (store.slot? place).isSome := by
    rw [← continues.presence place (inside ▸ there), found]
    rfl
  obtain ⟨before, held⟩ := Option.isSome_iff_exists.mp present
  obtain ⟨registry, attached⟩ := Option.isSome_iff_exists.mp (reactive place before inside held)
  have kept := continues.kept place registry
    (by simp only [registryAt, held, Option.bind_some, attached])
  simp only [registryAt, found, Option.bind_some] at kept
  rw [kept]
  rfl

theorem reaches (continues : store.Continues later (fun _ => False)) (closed : store.Closed)
    {first last : Container} (start : store.Has first) (path : later.Reaches first last) :
    store.Reaches first last := by
  induction path with
  | refl => exact .refl
  | tail _ holds before =>
      obtain ⟨place, slot, inside, found, inner⟩ := mem_nested_iff.mp holds
      have there := closed.reaches start before
      have same := continues.peek place (inside ▸ there) id
      simp only [Store.peek, found, Option.map_some] at same
      obtain ⟨held, present, value⟩ := Option.map_eq_some_iff.mp same.symm
      apply before.step inside present
      rw [value]
      exact inner

theorem text (continues : store.Continues later changed) (closed : store.Closed) {value : Value}
    (inside : value.Within store.Has) : later.text value = store.text value := by
  apply text_agrees
  intro list renders
  exact continues.elements list (closed.renders inside renders)

theorem agreesOn (continues : store.Continues later changed) (closed : store.Closed)
    {glimpses : List Glimpse} (inside : ∀ glimpse ∈ glimpses, glimpse.Within store.Has)
    (avoids : ∀ place, changed place → .slot place ∉ glimpses) :
    store.AgreesOn later glimpses := by
  intro glimpse member
  have there := inside glimpse member
  cases glimpse with
  | slot place => exact continues.peek place there (fun change => avoids place change member)
  | presence place => exact continues.presence place there
  | length list =>
      have same := congrArg List.length (continues.elements list there)
      simp only [List.length_map] at same
      exact same
  | text value => exact continues.text closed there

end Continues

theorem Instruments.continues (instruments : store.Instruments later) :
    store.Continues later (fun _ => False) where
  has := by
    intro container there
    cases container with
    | record record => exact Nat.lt_of_lt_of_eq there instruments.records.symm
    | list list => exact Nat.lt_of_lt_of_eq there instruments.lists.symm
  peek := fun place _ _ => instruments.peek place
  presence := fun place _ => instruments.presence place
  elements := fun list _ => instruments.elements list
  kept := instruments.kept

/-- Where containers are only added, those that were there keep their slots. -/
theorem continues_of_slots (has : ∀ container, store.Has container → later.Has container)
    (slots : ∀ place, store.Has place.container → later.slot? place = store.slot? place)
    (elements : ∀ list, store.Has (.list list) → later.items list = store.items list) :
    store.Continues later (fun _ => False) where
  has := has
  peek := by
    intro place there _
    rw [Store.peek, slots place there, Store.peek]
  presence := by
    intro place there
    rw [slots place there]
  elements := by
    intro list there
    rw [elements list there]
  kept := by
    intro place registry attached
    have there := has_of_slot? (isSome_slot?_of_registryAt attached)
    rw [registryAt, slots place there]
    exact attached

theorem SameData.continues (same : store.SameData later) :
    store.Continues later (fun _ => False) := by
  apply continues_of_slots
  · intro container there
    cases container with
    | record record =>
        change record.index < later.records.size
        rw [same.1]
        exact there
    | list list =>
        change list.index < later.lists.size
        rw [same.2]
        exact there
  · exact fun place _ => same.slot? place
  · exact fun list _ => same.items list

theorem continues_newRecord (store : Store) (content : List (String × Value)) :
    store.Continues (store.newRecord content).2 (fun _ => False) := by
  apply continues_of_slots
  · intro container there
    cases container with
    | record record =>
        change record.index < (store.records.push _).size
        rw [Array.size_push]
        exact Nat.lt_succ_of_lt there
    | list list => exact there
  · intro place there
    cases place with
    | item list index => rfl
    | field record key =>
        have old : record.index ≠ store.records.size := Nat.ne_of_lt there
        simp only [slot?, newRecord, fields, Array.getElem?_push, if_neg old]
  · intro list _
    rfl

theorem continues_newList (store : Store) (elements : List Value) :
    store.Continues (store.newList elements).2 (fun _ => False) := by
  have held (list : ListId) (there : store.Has (.list list)) :
      (store.newList elements).2.items list = store.items list := by
    have old : list.index ≠ store.lists.size := Nat.ne_of_lt there
    simp only [items, newList, Array.getElem?_push, if_neg old]
  apply continues_of_slots
  · intro container there
    cases container with
    | record record => exact there
    | list list =>
        change list.index < (store.lists.push _).size
        rw [Array.size_push]
        exact Nat.lt_succ_of_lt there
  · intro place there
    cases place with
    | field record key => rfl
    | item list index => rw [slot?, held list there, slot?]
  · exact held

theorem continues_put_field {record : RecordId} {key : String} {registry : RegistryId}
    (attached : store.registryAt (.field record key) = some registry) (value : Value) :
    store.Continues (store.put (.field record key) ⟨value, some registry⟩)
      (· = .field record key) := by
  have there := isSome_slot?_of_registryAt attached
  have slots := slot?_put there ⟨value, some registry⟩
  refine ⟨?_, ?_, ?_, ?_, ?_⟩
  · intro container has
    cases container with
    | record other => exact Nat.lt_of_lt_of_eq has (size_records_put _ _ _).symm
    | list list => exact has
  · intro place _ differs
    rw [Store.peek, slots, if_neg differs, Store.peek]
  · intro place _
    rw [slots]
    split
    · next same =>
        rw [same, there]
        rfl
    · rfl
  · intro list _
    rfl
  · intro place other attached'
    rw [registryAt, slots]
    split
    · next same =>
        rw [same, attached] at attached'
        exact attached'
    · exact attached'

theorem continues_overwrite {record : RecordId} {key : String} {registry : RegistryId}
    (attached : store.registryAt (.field record key) = some registry) (value : Value) :
    store.Continues (store.overwrite (.field record key) value registry)
      (· = .field record key) := by
  have instruments := instruments_instrumentFrom store value.container?.toList
  have written := continues_put_field (instruments.kept _ _ attached) value
  have whole := instruments.continues.trans written
  simp only [false_or] at whole
  exact whole

/-- All that is reached from a root is there and reactive. -/
structure Grounded (store : Store) (root : RecordId) : Prop where
  closed : store.Closed
  there : store.Has (.record root)
  reactive : ∀ container, store.Reaches (.record root) container → store.Reactive container

variable {root : RecordId}

theorem Grounded.sameData (grounded : store.Grounded root) (same : store.SameData later) :
    later.Grounded root := by
  obtain ⟨records, lists, registries⟩ := store
  obtain ⟨records', lists', registries'⟩ := later
  obtain ⟨equal, equal'⟩ := same
  cases equal
  cases equal'
  exact ⟨grounded.closed, grounded.there, grounded.reactive⟩

theorem Grounded.continues (grounded : store.Grounded root)
    (continues : store.Continues later (fun _ => False)) (closed : later.Closed) :
    later.Grounded root where
  closed := closed
  there := continues.has _ grounded.there
  reactive := by
    intro container path
    have before := continues.reaches grounded.closed grounded.there path
    exact continues.reactive (grounded.closed.reaches grounded.there before)
      (grounded.reactive container before)

theorem closed_of_slots {later : Store} (closed : store.Closed)
    (has : ∀ container, store.Has container → later.Has container)
    (slots : ∀ place slot, later.slot? place = some slot →
      (∃ before, store.slot? place = some before ∧ before.value = slot.value) ∨
        slot.value.Within store.Has) :
    later.Closed := by
  intro place slot found container holds
  apply has
  rcases slots place slot found with ⟨before, present, same⟩ | inside
  · exact closed place before present container (same ▸ holds)
  · exact inside container holds

theorem Instruments.closed (instruments : store.Instruments later) (closed : store.Closed) :
    later.Closed := by
  apply closed_of_slots closed instruments.continues.has
  intro place slot found
  exact .inl (instruments.value found)

theorem Grounded.newRecord (grounded : store.Grounded root) {fields : List (String × Value)}
    (inside : ∀ field ∈ fields, field.2.Within store.Has) :
    (store.newRecord fields).2.Grounded root := by
  have continues := continues_newRecord store fields
  apply grounded.continues continues
  apply closed_of_slots grounded.closed continues.has
  intro place slot found
  rcases slot?_newRecord found with before | ⟨-, field, member, rfl⟩
  · exact .inl ⟨slot, before, rfl⟩
  · exact .inr (inside field member)

theorem Grounded.newList (grounded : store.Grounded root) {elements : List Value}
    (inside : ∀ value ∈ elements, value.Within store.Has) :
    (store.newList elements).2.Grounded root := by
  have continues := continues_newList store elements
  apply grounded.continues continues
  apply closed_of_slots grounded.closed continues.has
  intro place slot found
  rcases slot?_newList found with before | ⟨-, value, member, rfl⟩
  · exact .inl ⟨slot, before, rfl⟩
  · exact .inr (inside value member)

theorem reaches_of_put {place : Place} {slot : Slot} {first last : Container}
    (path : (store.put place slot).Reaches first last) :
    store.Reaches first last ∨
      ∃ inner, slot.value.container? = some inner ∧ store.Reaches inner last := by
  induction path with
  | refl => exact .inl .refl
  | tail _ holds before =>
      obtain ⟨other, held, inside, found, inner⟩ := mem_nested_iff.mp holds
      rcases slot?_put_cases store place slot other with same | ⟨-, written⟩
      · rw [same] at found
        rcases before with old | ⟨start, holds', new⟩
        · exact .inl (old.step inside found inner)
        · exact .inr ⟨start, holds', new.step inside found inner⟩
      · cases written.symm.trans found
        exact .inr ⟨_, inner, .refl⟩

theorem Grounded.overwrite (grounded : store.Grounded root) {record : RecordId} {key : String}
    {registry : RegistryId} (attached : store.registryAt (.field record key) = some registry)
    {value : Value} (inside : value.Within store.Has) :
    (store.overwrite (.field record key) value registry).Grounded root := by
  let instrumented := store.instrumentValue value
  have instruments : store.Instruments instrumented := instruments_instrumentFrom store _
  have written := continues_put_field (instruments.kept _ _ attached) value
  have whole := continues_overwrite attached value
  have between := grounded.continues instruments.continues (instruments.closed grounded.closed)
  refine ⟨?_, whole.has _ grounded.there, ?_⟩
  · apply closed_of_slots grounded.closed whole.has
    intro place slot found
    rcases slot?_put_cases instrumented (.field record key) ⟨value, some registry⟩ place with
      same | ⟨-, new⟩
    · exact .inl (instruments.value (same ▸ found))
    · cases new.symm.trans found
      exact .inr inside
  · intro container path
    rcases reaches_of_put path with old | ⟨start, holds, new⟩
    · exact written.reactive (between.closed.reaches between.there old)
        (between.reactive container old)
    · have member : start ∈ value.container?.toList := by
        rw [holds]
        exact List.mem_singleton_self start
      have before := (instruments.reaches start container).mp new
      have there := between.closed.reaches
        (instruments.continues.has start (inside start holds)) new
      exact written.reactive there (reactive_instrumentFrom member before)

theorem grounded_instrument (closed : store.Closed) (there : store.Has (.record root)) :
    (store.instrument root).Grounded root := by
  have instruments : store.Instruments (store.instrument root) :=
    instruments_instrumentFrom store _
  refine ⟨instruments.closed closed, instruments.continues.has _ there, ?_⟩
  intro container path
  have before := (instruments.reaches _ container).mp path
  exact reactive_instrumentFrom (List.mem_singleton_self _) before

end Store

namespace Binding

variable {κ : Type} {binding : Binding κ} {store later : Store} {changed : Place → Prop}

theorem account_sameData (binding : Binding κ)
    (plain : binding.formula.callsNone binding.context.methods = true)
    (same : store.SameData later) : binding.account later = binding.account store :=
  (binding.formula.determined_reading binding.context plain).sameData same

/-- The account stays the same where no changed slot is read. -/
theorem account_of_continues (plain : binding.formula.callsNone binding.context.methods = true)
    (closed : store.Closed) (there : store.Has (.record binding.context.data))
    (continues : store.Continues later changed)
    (avoids : ∀ place, changed place → .slot place ∉ (binding.account store).glimpses) :
    binding.account later = binding.account store := by
  have confined : (binding.formula.reading binding.context).Confined store store.Has _ :=
    binding.formula.confined_reading (fun place slot found _ => closed place slot found) there
  apply binding.formula.determined_reading binding.context plain
  exact continues.agreesOn closed confined.glimpses avoids

theorem account_continues (plain : binding.formula.callsNone binding.context.methods = true)
    (grounded : store.Grounded binding.context.data) (continues : store.Continues later changed)
    (avoids : ∀ place, changed place → .slot place ∉ (binding.account store).glimpses) :
    binding.account later = binding.account store :=
  account_of_continues plain grounded.closed grounded.there continues avoids

theorem tracked_continues (grounded : store.Grounded binding.context.data)
    (continues : store.Continues later changed) :
    later.tracked (binding.account store).glimpses =
      store.tracked (binding.account store).glimpses := by
  have confined : (binding.formula.reading binding.context).Confined store
      (store.Reaches (.record binding.context.data)) _ :=
    binding.formula.confined_reading (store.closedUnder_reaches _) .refl
  apply List.filterMap_congr
  intro glimpse member
  cases glimpse with
  | slot place =>
      have path := confined.glimpses _ member
      have there := grounded.closed.reaches grounded.there path
      cases found : store.slot? place with
      | none =>
          have absent := continues.presence place there
          rw [found] at absent
          have missing : later.slot? place = none := by simpa using absent
          simp only [Store.registryAt, found, missing]
      | some slot =>
          obtain ⟨registry, attached⟩ := Option.isSome_iff_exists.mp
            (grounded.reactive _ path place slot rfl found)
          have before : store.registryAt place = some registry := by
            simp only [Store.registryAt, found, Option.bind_some, attached]
          simp only [before, continues.kept place registry before]
  | _ => rfl

end Binding

end ReactiveView
