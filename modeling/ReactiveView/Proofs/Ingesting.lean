import ReactiveView.Proofs.Conversion
import ReactiveView.Proofs.Unfolding

/-!
# Documents read in and written back

A document that is read in becomes containers that are added to the data, and the data that
were there stay as they were. What is written of the value read in is the document with its
numbers in floating point. The other way around, a value that is written and read in again
has a copy of the same shape, in which the fields of a record are sorted.
-/

namespace ReactiveView

set_option autoImplicit false

namespace Dictionary

variable {α : Type} {key : String} {entries : List (String × α)}

theorem insertEntry_of_not_mem (value : α) (absent : key ∉ entries.map Prod.fst) :
    insertEntry key value entries = entries ++ [(key, value)] := by
  induction entries with
  | nil => rfl
  | cons entry rest induction =>
      simp only [List.map_cons, List.mem_cons, not_or] at absent
      rw [insertEntry, if_neg (Ne.symm absent.1), induction absent.2]
      rfl

theorem entries_foldl_insert (table : Dictionary α)
    (distinct : ((table.entries ++ entries).map Prod.fst).Nodup) :
    (entries.foldl (fun table entry => table.insert entry.1 entry.2) table).entries =
      table.entries ++ entries := by
  induction entries generalizing table with
  | nil => rw [List.foldl_nil, List.append_nil]
  | cons entry rest induction =>
      have apart : entry.1 ∉ table.entries.map Prod.fst := by
        rw [List.map_append, List.map_cons, List.nodup_append] at distinct
        exact fun among => distinct.2.2 _ among _ List.mem_cons_self rfl
      have added : (table.insert entry.1 entry.2).entries = table.entries ++ [entry] :=
        insertEntry_of_not_mem entry.2 apart
      rw [List.foldl_cons, induction, added, List.append_assoc, List.singleton_append]
      rw [added, List.append_assoc, List.singleton_append]
      exact distinct

theorem entries_ofList (distinct : (entries.map Prod.fst).Nodup) :
    (ofList entries).entries = entries :=
  entries_foldl_insert empty distinct

end Dictionary

namespace Json

/-- A document as it comes from outside. Its whole numbers have sixty-four bits, its other
numbers are finite, and the names of an object are in ascending order. -/
inductive Regular : Json → Prop where
  | null : Regular .null
  | bool (value : Bool) : Regular (.bool value)
  | whole {value : Int} (least : -2 ^ 63 ≤ value) (below : value < 2 ^ 64) :
      Regular (.whole value)
  | number {value : Float} (finite : value.isFinite = true) : Regular (.number value)
  | text (value : String) : Regular (.text value)
  | array {items : List Json} (each : ∀ item ∈ items, Regular item) : Regular (.array items)
  | object {fields : List (String × Json)} (ascending : (fields.map Prod.fst).Pairwise (· < ·))
      (each : ∀ field ∈ fields, Regular field.2) : Regular (.object fields)

/-- The document with every number in floating point. -/
def floated : Json → Json
  | .null => .null
  | .bool value => .bool value
  | .whole value => .number (Float.ofInt value)
  | .number value => .number value
  | .text value => .text value
  | .array items => .array (floatedItems items)
  | .object fields => .object (floatedFields fields)
where
  floatedItems : List Json → List Json
    | [] => []
    | item :: rest => item.floated :: floatedItems rest
  floatedFields : List (String × Json) → List (String × Json)
    | [] => []
    | (name, item) :: rest => (name, item.floated) :: floatedFields rest

theorem floatedItems_eq_map (items : List Json) :
    floated.floatedItems items = items.map floated := by
  induction items with
  | nil => rfl
  | cons item rest induction => rw [floated.floatedItems, induction, List.map_cons]

theorem floatedFields_eq_map (fields : List (String × Json)) :
    floated.floatedFields fields = fields.map (fun field => (field.1, field.2.floated)) := by
  induction fields with
  | nil => rfl
  | cons field rest induction => rw [floated.floatedFields, induction, List.map_cons]

theorem nodup_of_ascending {names : List String} (ascending : names.Pairwise (· < ·)) :
    names.Nodup :=
  ascending.imp ne_of_lt

end Json

namespace Store

variable {store later final : Store} {value copy : Value} {json : Json}

/-- The containers of a store are, with all that they hold, containers of the later one. -/
structure Extends (store later : Store) : Prop where
  records : ∀ (index : Nat) (table : Dictionary Slot),
    store.records[index]? = some table → later.records[index]? = some table
  lists : ∀ (index : Nat) (slots : List Slot),
    store.lists[index]? = some slots → later.lists[index]? = some slots

namespace Extends

theorem refl (store : Store) : store.Extends store := ⟨fun _ _ => id, fun _ _ => id⟩

theorem trans (first : store.Extends later) (second : later.Extends final) :
    store.Extends final :=
  ⟨fun index table found => second.records index table (first.records index table found),
    fun index slots found => second.lists index slots (first.lists index slots found)⟩

end Extends

theorem getElem?_push_of_some {α : Type} {elements : Array α} {index : Nat} {element : α}
    (found : elements[index]? = some element) (last : α) :
    (elements.push last)[index]? = some element := by
  obtain ⟨below, -⟩ := Array.getElem?_eq_some_iff.mp found
  rw [Array.getElem?_push, if_neg (Nat.ne_of_lt below), found]

theorem extends_newRecord (store : Store) (content : List (String × Value)) :
    store.Extends (store.newRecord content).2 :=
  ⟨fun _ _ found => getElem?_push_of_some found _, fun _ _ => id⟩

theorem extends_newList (store : Store) (elements : List Value) :
    store.Extends (store.newList elements).2 :=
  ⟨fun _ _ => id, fun _ _ found => getElem?_push_of_some found _⟩

theorem fields_of_found {record : RecordId} {table : Dictionary Slot}
    (found : store.records[record.index]? = some table) : store.fields record = table := by
  rw [Store.fields, found, Option.getD_some]

theorem items_of_found {list : ListId} {slots : List Slot}
    (found : store.lists[list.index]? = some slots) : store.items list = slots := by
  rw [Store.items, found, Option.getD_some]

/-- The value was built of the document: its containers hold one after the other what was
built of the parts of the document. -/
inductive Built (store : Store) : Json → Value → Prop where
  | null : Built store .null .null
  | bool (value : Bool) : Built store (.bool value) (.bool value)
  | whole (value : Int) : Built store (.whole value) (.number (Float.ofInt value))
  | number (value : Float) : Built store (.number value) (.number value)
  | text (value : String) : Built store (.text value) (.text value)
  | array {items : List Json} {list : ListId} {slots : List Slot}
      (found : store.lists[list.index]? = some slots) (length : slots.length = items.length)
      (each : ∀ (index : Nat) (slot : Slot) (item : Json), slots[index]? = some slot →
        items[index]? = some item → Built store item slot.value) :
      Built store (.array items) (.list list)
  | object {fields : List (String × Json)} {record : RecordId} {table : Dictionary Slot}
      (found : store.records[record.index]? = some table)
      (names : table.keys = fields.map Prod.fst)
      (each : ∀ (key : String) (slot : Slot) (item : Json), (key, slot) ∈ table.entries →
        (key, item) ∈ fields → Built store item slot.value) :
      Built store (.object fields) (.record record)

theorem Built.mono (built : store.Built json value) (extends' : store.Extends later) :
    later.Built json value := by
  induction built with
  | array found length _ induction => exact .array (extends'.lists _ _ found) length induction
  | object found names _ induction => exact .object (extends'.records _ _ found) names induction
  | _ => constructor

theorem built_newList {items : List Json} {values : List Value}
    (parts : List.Forall₂ store.Built items values) :
    (store.newList values).2.Built (.array items) (.list (store.newList values).1) := by
  refine .array Array.getElem?_push_size ?_ ?_
  · rw [List.length_map, parts.length_eq]
  · intro index slot item found present
    rw [List.getElem?_map, Option.map_eq_some_iff] at found
    obtain ⟨value, held, rfl⟩ := found
    obtain ⟨below, rfl⟩ := List.getElem?_eq_some_iff.mp held
    obtain ⟨below', rfl⟩ := List.getElem?_eq_some_iff.mp present
    exact (parts.get below' below).mono (store.extends_newList values)

theorem built_newRecord {fields : List (String × Json)} {values : List (String × Value)}
    (parts : List.Forall₂ (fun field value => value.1 = field.1 ∧ store.Built field.2 value.2)
      fields values) (distinct : (fields.map Prod.fst).Nodup) :
    (store.newRecord values).2.Built (.object fields) (.record (store.newRecord values).1) := by
  have names : values.map Prod.fst = fields.map Prod.fst :=
    Dictionary.names_of_forall₂ store.Built parts
  have names' : (values.map fun value => (value.1, Slot.plain value.2)).map Prod.fst =
      fields.map Prod.fst := by
    rw [List.map_map, ← names]
    rfl
  have entries := Dictionary.entries_ofList (names' ▸ distinct)
  refine .object Array.getElem?_push_size (by rw [Dictionary.keys, entries, names']) ?_
  intro key slot item held present
  rw [entries] at held
  obtain ⟨⟨name, value⟩, among, same⟩ := List.mem_map.mp held
  obtain ⟨rfl, rfl⟩ := Prod.mk.inj same
  exact (Dictionary.related_of_mem store.Built parts distinct present among).mono
    (store.extends_newRecord values)

mutual

theorem ingest_built (store : Store) (json : Json) (regular : json.Regular) :
    store.Extends (store.ingest json).2 ∧
      (store.ingest json).2.Built json (store.ingest json).1 := by
  cases json with
  | null => exact ⟨.refl store, .null⟩
  | bool value => exact ⟨.refl store, .bool value⟩
  | whole value => exact ⟨.refl store, .whole value⟩
  | number value => exact ⟨.refl store, .number value⟩
  | text value => exact ⟨.refl store, .text value⟩
  | array items =>
      cases regular with
      | array each =>
          obtain ⟨extends', parts⟩ := ingestItems_built store items each
          exact ⟨extends'.trans (extends_newList _ _), built_newList parts⟩
  | object fields =>
      cases regular with
      | object ascending each =>
          obtain ⟨extends', parts⟩ := ingestFields_built store fields each
          exact ⟨extends'.trans (extends_newRecord _ _),
            built_newRecord parts (Json.nodup_of_ascending ascending)⟩

theorem ingestItems_built (store : Store) (items : List Json)
    (each : ∀ item ∈ items, item.Regular) :
    store.Extends (ingest.ingestItems store items).2 ∧
      List.Forall₂ (ingest.ingestItems store items).2.Built items
        (ingest.ingestItems store items).1 := by
  cases items with
  | nil => exact ⟨.refl store, .nil⟩
  | cons item rest =>
      obtain ⟨first, built⟩ := ingest_built store item (each item List.mem_cons_self)
      obtain ⟨further, parts⟩ := ingestItems_built (store.ingest item).2 rest
        fun item among => each item (List.mem_cons_of_mem _ among)
      exact ⟨first.trans further, .cons (built.mono further) parts⟩

theorem ingestFields_built (store : Store) (fields : List (String × Json))
    (each : ∀ field ∈ fields, field.2.Regular) :
    store.Extends (ingest.ingestFields store fields).2 ∧
      List.Forall₂ (fun field value => value.1 = field.1 ∧
          (ingest.ingestFields store fields).2.Built field.2 value.2)
        fields (ingest.ingestFields store fields).1 := by
  cases fields with
  | nil => exact ⟨.refl store, .nil⟩
  | cons field rest =>
      obtain ⟨name, item⟩ := field
      obtain ⟨first, built⟩ := ingest_built store item (each (name, item) List.mem_cons_self)
      obtain ⟨further, parts⟩ := ingestFields_built (store.ingest item).2 rest
        fun field among => each field (List.mem_cons_of_mem _ among)
      exact ⟨first.trans further, .cons ⟨rfl, built.mono further⟩ parts⟩

end

/-- What was built of a document unfolds to it, with its numbers in floating point. -/
theorem Built.unfolds (built : store.Built json value) (regular : json.Regular) :
    store.Unfolds value json.floated := by
  induction built with
  | null => exact .null
  | bool value => exact .bool value
  | whole value =>
      cases regular with
      | whole least below => exact .finite (Number.isFinite_ofInt least below)
  | number value =>
      cases regular with
      | number finite => exact .finite finite
  | text value => exact .text value
  | @array items list slots found length each induction =>
      cases regular with
      | array regular =>
          have content := items_of_found found
          rw [Json.floated, Json.floatedItems_eq_map]
          refine .list (by rw [List.length_map, content, length]) ?_
          intro index slot json held present
          rw [content] at held
          rw [List.getElem?_map, Option.map_eq_some_iff] at present
          obtain ⟨item, present, rfl⟩ := present
          exact induction index slot item held present (regular item (List.mem_of_getElem? present))
  | @object fields record table found names each induction =>
      cases regular with
      | object ascending regular =>
          have content := fields_of_found found
          have names' : (fields.map fun field => (field.1, field.2.floated)).map Prod.fst =
              table.keys := by
            rw [List.map_map, names]
            rfl
          rw [Json.floated, Json.floatedFields_eq_map]
          refine .record (by rw [names', names]; exact ascending) (by rw [names', content]) ?_
          intro key slot json held present
          rw [content] at held
          obtain ⟨⟨name, item⟩, among, same⟩ := List.mem_map.mp present
          obtain ⟨rfl, rfl⟩ := Prod.mk.inj same
          exact induction name slot item held among (regular (name, item) among)

/-- The numbers of the value, at any depth, are finite. -/
def HoldsFinite (store : Store) (value : Value) : Prop :=
  ∀ number : Float, (value = .number number ∨ ∃ container, store.Leads value container ∧
    ∃ slot ∈ store.slots container, slot.value = .number number) → number.isFinite = true

theorem HoldsFinite.slot {outer : Container} {slot : Slot} (finite : store.HoldsFinite value)
    (holds : value.container? = some outer) (member : slot ∈ store.slots outer) :
    store.HoldsFinite slot.value := by
  rintro number (same | ⟨inner, leads, held⟩)
  · exact finite number (.inr ⟨outer, ⟨outer, holds, .refl⟩, slot, member, same⟩)
  · exact finite number (.inr ⟨inner, leads.within holds member, held⟩)

theorem holdsFinite_of_slots {outer : Container} (holds : value.container? = some outer)
    (each : ∀ slot ∈ store.slots outer, store.HoldsFinite slot.value) :
    store.HoldsFinite value := by
  rintro number (rfl | ⟨inner, leads, slot, member, same⟩)
  · cases holds
  · rcases leads.cases holds with rfl | ⟨first, among, further⟩
    · exact each slot member number (.inl same)
    · exact each first among number (.inr ⟨inner, further, slot, member, same⟩)

/-- The copy, in a store of its own, has the shape of the value. Its leaves are the same, its
lists are as long and in the same order, and its records have the same keys, in ascending
order. -/
inductive Copies (store other : Store) : Value → Value → Prop where
  | null : Copies store other .null .null
  | bool (value : Bool) : Copies store other (.bool value) (.bool value)
  | number (value : Float) : Copies store other (.number value) (.number value)
  | text (value : String) : Copies store other (.text value) (.text value)
  | record {record copy : RecordId}
      (keys : (other.fields copy).keys.Perm (store.fields record).keys)
      (ascending : (other.fields copy).keys.Pairwise (· < ·))
      (each : ∀ (key : String) (slot slot' : Slot), (store.fields record).find? key = some slot →
        (other.fields copy).find? key = some slot' → Copies store other slot.value slot'.value) :
      Copies store other (.record record) (.record copy)
  | list {list copy : ListId} (length : (other.items copy).length = (store.items list).length)
      (each : ∀ (index : Nat) (slot slot' : Slot), (store.items list)[index]? = some slot →
        (other.items copy)[index]? = some slot' → Copies store other slot.value slot'.value) :
      Copies store other (.list list) (.list copy)

/-- What a value unfolds to can be read in. -/
theorem Unfolds.regular (unfolds : store.Unfolds value json) : json.Regular := by
  induction unfolds with
  | null => exact .null
  | bool value => exact .bool value
  | finite finite => exact .number finite
  | infinite => exact .null
  | text value => exact .text value
  | @record record fields ascending keys each induction =>
      refine .object ascending ?_
      rintro ⟨name, item⟩ among
      have listed := keys.mem_iff.mp (List.mem_map_of_mem (f := Prod.fst) among)
      obtain ⟨⟨key, slot⟩, held, rfl⟩ := List.mem_map.mp listed
      exact induction key slot item held among
  | @list list items length each induction =>
      refine .array ?_
      intro item among
      obtain ⟨index, present⟩ := List.mem_iff_getElem?.mp among
      have bound := length ▸ (List.getElem?_eq_some_iff.mp present).1
      exact induction index _ item (List.getElem?_eq_getElem bound) present

theorem Unfolds.copies (unfolds : store.Unfolds value json) (finite : store.HoldsFinite value)
    (built : later.Built json copy) : store.Copies later value copy := by
  induction unfolds generalizing copy with
  | infinite infinite => simp [finite _ (.inl rfl)] at infinite
  | @record record fields ascending keys each induction =>
      cases built with
      | @object _ copy table found names parts =>
          have content := fields_of_found found
          refine .record (by rw [content, names]; exact keys)
            (by rw [content, names]; exact ascending) ?_
          intro key slot slot' held held'
          have entry := Dictionary.find?_eq_some_iff.mp held
          have entry' := content ▸ Dictionary.find?_eq_some_iff.mp held'
          have listed : key ∈ fields.map Prod.fst :=
            names ▸ List.mem_map_of_mem (f := Prod.fst) entry'
          obtain ⟨⟨name, item⟩, present, rfl⟩ := List.mem_map.mp listed
          exact induction name slot item entry present
            (finite.slot rfl (List.mem_map_of_mem (f := Prod.snd) entry))
            (parts name slot' item entry' present)
  | @list list items length each induction =>
      cases built with
      | @array _ copy slots found length' parts =>
          have content := items_of_found found
          refine .list (by rw [content, length', length]) ?_
          intro index slot slot' held held'
          rw [content] at held'
          have bound := length' ▸ (List.getElem?_eq_some_iff.mp held').1
          have present := List.getElem?_eq_getElem bound
          exact induction index slot _ held present
            (finite.slot rfl (List.mem_of_getElem? held)) (parts index slot' _ held' present)
  | _ =>
      cases built
      constructor

/-- What reading a document in and writing a value do to each other. -/
structure Inverse (store : Store) : Prop where
  /-- A document read in is written as it was, with its numbers in floating point. -/
  document : ∀ json : Json, json.Regular →
    (store.ingest json).2.serialized (store.ingest json).1 = .ok json.floated ∧
      (store.ingest json).2.toJson (store.ingest json).1 = json.floated
  /-- A value that is written and read in again has a copy, and stays as it was. -/
  value : ∀ value : Value, ¬store.Circular value → store.HoldsFinite value →
    let read := store.ingest (store.toJson value)
    store.Extends read.2 ∧ store.Copies read.2 value read.1

/-- Whatever the data that are there, reading in and writing invert each other. -/
theorem ingestion_inverts_export (store : Store) : store.Inverse where
  document := fun json regular => by
    have unfolds := (ingest_built store json regular).2.unfolds regular
    have written := serialized_eq_ok_iff.mpr unfolds
    exact ⟨written, by rw [toJson, written]⟩
  value := fun value acyclic finite => by
    obtain ⟨json, written, unfolds⟩ :=
      (store.serialized_cases value).resolve_right fun failed => acyclic failed.2
    rw [toJson, written]
    obtain ⟨extends', built⟩ := ingest_built store json unfolds.regular
    exact ⟨extends', unfolds.copies finite built⟩

def twice : Store :=
  ((Store.empty.newList [.number 1.5]).2.newRecord [("y", .list ⟨0⟩), ("x", .list ⟨0⟩)]).2

theorem twice_inverse :
    let document : Json := .object [("a", .whole 1), ("b", .array [.number 1.5, .null])]
    let read := twice.ingest document
    let copy := twice.ingest (twice.toJson (.record ⟨0⟩))
    document.Regular ∧
      read.2.toJson read.1 = .object [("a", .number 1), ("b", .array [.number 1.5, .null])] ∧
      twice.toJson (.record ⟨0⟩) =
        .object [("x", .array [.number 1.5]), ("y", .array [.number 1.5])] ∧
      ¬twice.Circular (.record ⟨0⟩) ∧ twice.HoldsFinite (.record ⟨0⟩) ∧
      twice.Copies copy.2 (.record ⟨0⟩) copy.1 := by
  intro document read copy
  have regular : document.Regular := by
    refine .object (by decide) ?_
    simp only [List.forall_mem_cons, List.not_mem_nil, false_imp_iff, implies_true, and_true]
    refine ⟨.whole (by decide) (by decide), .array ?_⟩
    simp only [List.forall_mem_cons, List.not_mem_nil, false_imp_iff, implies_true, and_true]
    exact ⟨.number rfl, .null⟩
  have written : twice.serialized (.record ⟨0⟩) =
      .ok (.object [("x", .array [.number 1.5]), ("y", .array [.number 1.5])]) := rfl
  have acyclic : ¬twice.Circular (.record ⟨0⟩) :=
    (serialized_eq_ok_iff.mp written).not_circular
  have element : twice.HoldsFinite (.number 1.5) := by
    rintro number (same | ⟨inner, ⟨first, held, -⟩, -⟩)
    · cases same
      rfl
    · cases held
  have list : twice.HoldsFinite (.list ⟨0⟩) := by
    apply holdsFinite_of_slots rfl
    intro slot member
    rw [List.mem_singleton.mp member]
    exact element
  have finite : twice.HoldsFinite (.record ⟨0⟩) := by
    apply holdsFinite_of_slots rfl
    intro slot member
    have same : slot = .plain (.list ⟨0⟩) := by
      simpa [twice, slots, fields, newRecord, newList, Store.empty, Dictionary.ofList,
        Dictionary.insert, Dictionary.insertEntry, Dictionary.empty] using member
    rw [same]
    exact list
  have inverse := ingestion_inverts_export twice
  exact ⟨regular, (inverse.document document regular).2, rfl, acyclic, finite,
    (inverse.value _ acyclic finite).2⟩

end Store

end ReactiveView
