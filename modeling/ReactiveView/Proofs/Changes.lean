import ReactiveView.Data.Json
import ReactiveView.Proofs.Instrumentation

/-!
# Changes of the data

What callers' changes of the data do to slots and registries. No change makes a
registry that does not exist, and none lets a subscriber join or leave.
-/

namespace ReactiveView

set_option autoImplicit false

namespace Dictionary

variable {α : Type}

theorem find?_foldl_insert {entries : List (String × α)} {table : Dictionary α} {key : String}
    {value : α}
    (found : (entries.foldl (fun table entry => table.insert entry.1 entry.2) table).find? key =
      some value) :
    table.find? key = some value ∨ ∃ entry ∈ entries, entry.2 = value := by
  induction entries generalizing table with
  | nil => exact .inl found
  | cons entry rest induction =>
      rcases induction found with before | ⟨other, member, same⟩
      · rw [find?_insert] at before
        split at before
        · exact .inr ⟨entry, List.mem_cons_self, Option.some.inj before⟩
        · exact .inl before
      · exact .inr ⟨other, List.mem_cons_of_mem _ member, same⟩

theorem find?_ofList {entries : List (String × α)} {key : String} {value : α}
    (found : (ofList entries).find? key = some value) : ∃ entry ∈ entries, entry.2 = value := by
  rcases find?_foldl_insert found with impossible | present
  · cases impossible
  · exact present

end Dictionary

namespace Store

variable {store : Store}

theorem fields_of_not_lt {record : RecordId} (outside : ¬ record.index < store.records.size) :
    store.fields record = .empty := by
  simp [fields, Array.getElem?_eq_none (Nat.le_of_not_lt outside)]

theorem items_of_not_lt {list : ListId} (outside : ¬ list.index < store.lists.size) :
    store.items list = [] := by
  simp [items, Array.getElem?_eq_none (Nat.le_of_not_lt outside)]

theorem slot?_put_cases (store : Store) (place : Place) (slot : Slot) (other : Place) :
    (store.put place slot).slot? other = store.slot? other ∨
      other = place ∧ (store.put place slot).slot? other = some slot := by
  by_cases there : (store.slot? place).isSome
  · rw [slot?_put there]
    split
    · next same => exact .inr ⟨same, rfl⟩
    · exact .inl rfl
  · cases place with
    | item list index =>
        -- an element that is not there stays out
        left
        cases other with
        | field record key => rfl
        | item list' index' =>
            simp only [slot?, put, items, Array.getElem?_modify] at there ⊢
            by_cases same : list.index = list'.index
            · rw [if_pos same, ← same]
              cases found : store.lists[list.index]? with
              | none => rfl
              | some slots =>
                  have short : slots.length ≤ index := by simpa [found] using there
                  simp [List.set_eq_of_length_le short]
            · rw [if_neg same]
    | field record key =>
        cases other with
        | item list index => exact .inl rfl
        | field record' key' =>
            simp only [slot?, put, fields, Array.getElem?_modify]
            by_cases same : record.index = record'.index
            · have equal : record' = record := by cases record; cases record'; simp_all
              subst equal
              cases found : store.records[record'.index]? with
              | none => simp
              | some table =>
                  simp only [if_true, Option.map_some, Option.getD_some, Dictionary.find?_insert]
                  split
                  · next same =>
                      subst same
                      exact .inr ⟨rfl, rfl⟩
                  · exact .inl rfl
            · rw [if_neg same]
              exact .inl rfl

theorem slot?_push (store : Store) (list : ListId) (value : Value) (other : Place) :
    (store.push list value).slot? other = store.slot? other ∨
      (store.push list value).slot? other = some (.plain value) := by
  cases other with
  | field record key => exact .inl rfl
  | item list' index =>
      simp only [slot?, push, items, Array.getElem?_modify]
      by_cases same : list.index = list'.index
      · rw [if_pos same, ← same]
        cases store.lists[list.index]? with
        | none => exact .inl rfl
        | some slots =>
            simp only [Option.map_some, Option.getD_some, List.getElem?_append]
            split
            · exact .inl rfl
            · next beyond =>
                rw [List.getElem?_eq_none (Nat.le_of_not_lt beyond)]
                cases index - slots.length with
                | zero => exact .inr rfl
                | succ more => exact .inl rfl
      · rw [if_neg same]
        exact .inl rfl

theorem slot?_newRecord {fields : List (String × Value)} {place : Place} {slot : Slot}
    (found : (store.newRecord fields).2.slot? place = some slot) :
    store.slot? place = some slot ∨
      place.container = .record (store.newRecord fields).1 ∧
        ∃ field ∈ fields, slot = .plain field.2 := by
  cases place with
  | item list index => exact .inl found
  | field record key =>
      simp only [slot?, newRecord, Store.fields, Array.getElem?_push] at found
      split at found
      · next last =>
          obtain ⟨entry, member, same⟩ := Dictionary.find?_ofList found
          obtain ⟨field, among, rfl⟩ := List.mem_map.mp member
          exact .inr ⟨congrArg (fun index => Container.record ⟨index⟩) last, field, among,
            same.symm⟩
      · exact .inl found

theorem slot?_newList {elements : List Value} {place : Place} {slot : Slot}
    (found : (store.newList elements).2.slot? place = some slot) :
    store.slot? place = some slot ∨
      place.container = .list (store.newList elements).1 ∧
        ∃ value ∈ elements, slot = .plain value := by
  cases place with
  | field record key => exact .inl found
  | item list index =>
      simp only [slot?, newList, items, Array.getElem?_push] at found
      split at found
      · next last =>
          obtain ⟨value, among, same⟩ := List.mem_map.mp (List.mem_of_getElem? found)
          exact .inr ⟨congrArg (fun index => Container.list ⟨index⟩) last, value, among,
            same.symm⟩
      · exact .inl found

theorem slot?_empty (place : Place) : Store.empty.slot? place = none := by
  cases place <;> rfl

theorem ranged_empty : Store.empty.Ranged := by
  intro place registry attached
  rw [registryAt, slot?_empty] at attached
  cases attached

theorem Ranged.of_slots {later : Store} (ranged : store.Ranged)
    (size : store.registries.size ≤ later.registries.size)
    (slots : ∀ place slot registry, later.slot? place = some slot →
      slot.registry = some registry →
      store.slot? place = some slot ∨ registry.index < later.registries.size) :
    later.Ranged := by
  intro place registry attached
  obtain ⟨slot, found, has⟩ := Option.bind_eq_some_iff.mp attached
  rcases slots place slot registry found has with before | inside
  · refine Nat.lt_of_lt_of_le (ranged place registry ?_) size
    rw [registryAt, before]
    exact has
  · exact inside

theorem ranged_put {place : Place} {slot : Slot} (ranged : store.Ranged)
    (inside : ∀ registry, slot.registry = some registry →
      registry.index < store.registries.size) :
    (store.put place slot).Ranged := by
  have size := size_registries_put store place slot
  apply ranged.of_slots (Nat.le_of_eq size.symm)
  intro other held registry found has
  rcases slot?_put_cases store place slot other with same | ⟨-, written⟩
  · exact .inl (same ▸ found)
  · cases written.symm.trans found
    exact .inr (size ▸ inside registry has)

theorem ranged_put_plain (ranged : store.Ranged) (place : Place) (value : Value) :
    (store.put place (.plain value)).Ranged :=
  ranged_put ranged (fun _ impossible => by cases impossible)

theorem ranged_push (ranged : store.Ranged) (list : ListId) (value : Value) :
    (store.push list value).Ranged := by
  have size : store.registries.size ≤ (store.push list value).registries.size := Nat.le_refl _
  apply ranged.of_slots size
  intro place slot registry found has
  rcases slot?_push store list value place with same | added
  · exact .inl (same ▸ found)
  · cases added.symm.trans found
    cases has

theorem ranged_newRecord (ranged : store.Ranged) (fields : List (String × Value)) :
    (store.newRecord fields).2.Ranged := by
  have size : store.registries.size ≤ (store.newRecord fields).2.registries.size := Nat.le_refl _
  apply ranged.of_slots size
  intro place slot registry found has
  rcases slot?_newRecord found with before | ⟨-, field, -, rfl⟩
  · exact .inl before
  · cases has

theorem ranged_newList (ranged : store.Ranged) (elements : List Value) :
    (store.newList elements).2.Ranged := by
  have size : store.registries.size ≤ (store.newList elements).2.registries.size := Nat.le_refl _
  apply ranged.of_slots size
  intro place slot registry found has
  rcases slot?_newList found with before | ⟨-, value, -, rfl⟩
  · exact .inl before
  · cases has

theorem ranged_newRegistry (ranged : store.Ranged) : store.newRegistry.2.Ranged := by
  have size : store.newRegistry.2.registries.size = store.registries.size + 1 :=
    Array.size_push _
  apply ranged.of_slots (by omega)
  intro place slot registry found _
  exact .inl found

mutual

theorem registries_ingest (store : Store) (json : Json) :
    (store.ingest json).2.registries = store.registries := by
  cases json with
  | array items => exact registries_ingestItems store items
  | object fields => exact registries_ingestFields store fields
  | _ => rfl

theorem registries_ingestItems (store : Store) (items : List Json) :
    (ingest.ingestItems store items).2.registries = store.registries := by
  cases items with
  | nil => rfl
  | cons item rest =>
      exact (registries_ingestItems (store.ingest item).2 rest).trans
        (registries_ingest store item)

theorem registries_ingestFields (store : Store) (fields : List (String × Json)) :
    (ingest.ingestFields store fields).2.registries = store.registries := by
  cases fields with
  | nil => rfl
  | cons field rest =>
      exact (registries_ingestFields (store.ingest field.2).2 rest).trans
        (registries_ingest store field.2)

end

mutual

theorem ranged_ingest {store : Store} (ranged : store.Ranged) (json : Json) :
    (store.ingest json).2.Ranged := by
  cases json with
  | array items => exact ranged_newList (ranged_ingestItems ranged items) _
  | object fields => exact ranged_newRecord (ranged_ingestFields ranged fields) _
  | _ => exact ranged

theorem ranged_ingestItems {store : Store} (ranged : store.Ranged) (items : List Json) :
    (ingest.ingestItems store items).2.Ranged := by
  cases items with
  | nil => exact ranged
  | cons item rest => exact ranged_ingestItems (ranged_ingest ranged item) rest

theorem ranged_ingestFields {store : Store} (ranged : store.Ranged) (fields : List (String × Json)) :
    (ingest.ingestFields store fields).2.Ranged := by
  cases fields with
  | nil => exact ranged
  | cons field rest => exact ranged_ingestFields (ranged_ingest ranged field.2) rest

end

theorem instruments_instrumentField (store : Store) (record : RecordId) (key : String) :
    store.Instruments (store.instrumentField record key) := by
  unfold instrumentField
  split
  · exact (instruments_attach _ _).trans (instruments_instrumentFrom _ _)
  · exact Instruments.refl store

/-- A value written to a reactive slot is made reactive, and the registry stays. -/
def overwrite (store : Store) (place : Place) (value : Value) (registry : RegistryId) : Store :=
  (store.instrumentValue value).put place ⟨value, some registry⟩

theorem ranged_overwrite (ranged : store.Ranged) {place : Place} {registry : RegistryId}
    (attached : store.registryAt place = some registry) (value : Value) :
    (store.overwrite place value registry).Ranged := by
  have instruments := instruments_instrumentFrom store value.container?.toList
  apply ranged_put (instruments.ranged ranged)
  rintro other ⟨⟩
  exact instruments.ranged ranged place registry (instruments.kept place registry attached)

theorem slot?_overwrite {place : Place} (there : (store.slot? place).isSome) (value : Value)
    (registry : RegistryId) :
    (store.overwrite place value registry).slot? place = some ⟨value, some registry⟩ := by
  have instruments : store.Instruments (store.instrumentValue value) :=
    instruments_instrumentFrom store _
  have there' : ((store.instrumentValue value).slot? place).isSome := by
    rw [instruments.presence]
    exact there
  rw [overwrite, slot?_put there', if_pos rfl]

theorem subscribers_overwrite (store : Store) (place : Place) (value : Value)
    (registry other : RegistryId) :
    (store.overwrite place value registry).subscribers other = store.subscribers other :=
  (subscribers_put _ _ _ _).trans ((instruments_instrumentFrom store _).subscribers other)

end Store

end ReactiveView
