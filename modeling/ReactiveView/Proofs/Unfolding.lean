import Mathlib.Data.String.Basic
import ReactiveView.Data.Json
import ReactiveView.Proofs.Reach
import ReactiveView.Proofs.Rendering

/-!
# What a value is written as

A value unfolds to a tree that has a leaf for each scalar and a branch for each time that
a container is met, whether it is shared or not. There is such a tree unless a container
met is inside itself. The writing keeps one set of the containers that it is inside of; the
set is the path to the value being written, so it meets a container of the set just where
there is no tree to write.
-/

namespace ReactiveView

set_option autoImplicit false

namespace Dictionary

variable {α β : Type} (related : α → β → Prop) {left : List (String × α)}
  {right : List (String × β)}

theorem names_of_forall₂
    (parts : List.Forall₂ (fun first second => second.1 = first.1 ∧ related first.2 second.2)
      left right) : right.map Prod.fst = left.map Prod.fst := by
  induction parts with
  | nil => rfl
  | cons first _ induction => rw [List.map_cons, List.map_cons, first.1, induction]

theorem related_of_mem
    (parts : List.Forall₂ (fun first second => second.1 = first.1 ∧ related first.2 second.2)
      left right)
    (distinct : (left.map Prod.fst).Nodup) {name : String} {first : α} {second : β}
    (held : (name, first) ∈ left) (present : (name, second) ∈ right) : related first second := by
  induction parts with
  | nil => cases held
  | @cons field field' rest rest' match' parts induction =>
      obtain ⟨apart, distinct⟩ := List.nodup_cons.mp distinct
      have apart' : field.1 ∉ rest'.map Prod.fst := names_of_forall₂ related parts ▸ apart
      rcases List.mem_cons.mp held with rfl | held
      · rcases List.mem_cons.mp present with rfl | present
        · exact match'.2
        · exact absurd (List.mem_map_of_mem (f := Prod.fst) present) apart'
      · rcases List.mem_cons.mp present with rfl | present
        · rw [← match'.1] at apart
          exact absurd (List.mem_map_of_mem (f := Prod.fst) held) apart
        · exact induction distinct held present

end Dictionary

namespace Json

variable {name : String} {value : Json} {fields : List (String × Json)}

theorem perm_insertField (value : Json) (absent : name ∉ fields.map Prod.fst) :
    (insertField name value fields).Perm ((name, value) :: fields) := by
  induction fields with
  | nil => rfl
  | cons field rest induction =>
      obtain ⟨other, old⟩ := field
      simp only [List.map_cons, List.mem_cons, not_or] at absent
      rw [insertField]
      split
      · rfl
      · rw [if_neg absent.1]
        exact ((induction absent.2).cons _).trans (.swap _ _ _)

theorem pairwise_insertField (absent : name ∉ fields.map Prod.fst)
    (ascending : (fields.map Prod.fst).Pairwise (· < ·)) :
    ((insertField name value fields).map Prod.fst).Pairwise (· < ·) := by
  induction fields with
  | nil => exact List.pairwise_singleton _ _
  | cons field rest induction =>
      obtain ⟨other, old⟩ := field
      simp only [List.map_cons, List.mem_cons, not_or] at absent
      obtain ⟨first, later⟩ := List.pairwise_cons.mp ascending
      rw [insertField]
      split
      · next less =>
          refine List.pairwise_cons.mpr ⟨?_, ascending⟩
          intro key among
          rcases List.mem_cons.mp among with rfl | behind
          · exact less
          · exact less.trans (first key behind)
      · next reaches =>
          rw [if_neg absent.1]
          refine List.pairwise_cons.mpr ⟨?_, induction absent.2 later⟩
          intro key among
          have same := (perm_insertField value absent.2).map Prod.fst
          rcases List.mem_cons.mp (same.mem_iff.mp among) with rfl | behind
          · exact lt_of_le_of_ne (not_lt.mp reaches) (Ne.symm absent.1)
          · exact first key behind

theorem foldl_insertField (sorted : List (String × Json))
    (distinct : ((sorted ++ fields).map Prod.fst).Nodup)
    (ascending : (sorted.map Prod.fst).Pairwise (· < ·)) :
    let result := fields.foldl (fun sorted field => insertField field.1 field.2 sorted) sorted
    (result.map Prod.fst).Pairwise (· < ·) ∧ result.Perm (sorted ++ fields) := by
  induction fields generalizing sorted with
  | nil => exact ⟨ascending, by simp⟩
  | cons field rest induction =>
      have order : (sorted ++ field :: rest).Perm (field :: sorted ++ rest) := List.perm_middle
      have apart : field.1 ∉ sorted.map Prod.fst := by
        have front := (order.map Prod.fst).nodup_iff.mp distinct
        simp only [List.cons_append, List.map_cons, List.map_append, List.nodup_cons,
          List.mem_append, not_or] at front
        exact front.1.1
      have entered := perm_insertField field.2 apart
      have moved : (insertField field.1 field.2 sorted ++ rest).Perm (sorted ++ field :: rest) :=
        (entered.append_right rest).trans order.symm
      obtain ⟨rising, all⟩ := induction _ ((moved.map Prod.fst).nodup_iff.mpr distinct)
        (pairwise_insertField apart ascending)
      exact ⟨rising, all.trans moved⟩

/-- An object has its fields sorted by name. -/
theorem ofFields_eq_object (distinct : (fields.map Prod.fst).Nodup) :
    ∃ sorted, ofFields fields = .object sorted ∧
      (sorted.map Prod.fst).Pairwise (· < ·) ∧ sorted.Perm fields :=
  ⟨_, rfl, foldl_insertField [] distinct .nil⟩

end Json

namespace Store

variable {store : Store} {value : Value} {json other : Json} {outer : Container}

/-- The value unfolds to the tree. A number that a tree cannot hold is null in it, an
object has the names of its record in ascending order, and an array the elements of its
list in their order. -/
inductive Unfolds (store : Store) : Value → Json → Prop where
  | null : Unfolds store .null .null
  | bool (value : Bool) : Unfolds store (.bool value) (.bool value)
  | finite {value : Float} (finite : value.isFinite = true) :
      Unfolds store (.number value) (.number value)
  | infinite {value : Float} (infinite : value.isFinite = false) :
      Unfolds store (.number value) .null
  | text (value : String) : Unfolds store (.text value) (.text value)
  | record {record : RecordId} {fields : List (String × Json)}
      (ascending : (fields.map Prod.fst).Pairwise (· < ·))
      (keys : (fields.map Prod.fst).Perm (store.fields record).keys)
      (each : ∀ (key : String) (slot : Slot) (json : Json),
        (key, slot) ∈ (store.fields record).entries → (key, json) ∈ fields →
          Unfolds store slot.value json) :
      Unfolds store (.record record) (.object fields)
  | list {list : ListId} {items : List Json}
      (length : items.length = (store.items list).length)
      (each : ∀ (index : Nat) (slot : Slot) (json : Json),
        (store.items list)[index]? = some slot → items[index]? = some json →
          Unfolds store slot.value json) :
      Unfolds store (.list list) (.array items)

/-- The inner container is in the outer one, at any depth. -/
def Encloses (store : Store) : Container → Container → Prop :=
  Relation.TransGen (fun outer inner => inner ∈ store.nested outer)

/-- The value is, or has in it, a container that is inside itself. -/
def Circular (store : Store) (value : Value) : Prop :=
  ∃ container, store.Leads value container ∧ store.Encloses container container

theorem Leads.cases {inner : Container} (leads : store.Leads value inner)
    (holds : value.container? = some outer) :
    inner = outer ∨ ∃ slot ∈ store.slots outer, store.Leads slot.value inner := by
  obtain ⟨first, same, path⟩ := leads
  obtain rfl : first = outer := Option.some.inj (same.symm.trans holds)
  rcases Relation.ReflTransGen.cases_head path with rfl | ⟨next, member, later⟩
  · exact .inl rfl
  · obtain ⟨slot, among, held⟩ := List.mem_filterMap.mp member
    exact .inr ⟨slot, among, next, held, later⟩

theorem Leads.encloses {slot : Slot} {inner : Container} (member : slot ∈ store.slots outer)
    (leads : store.Leads slot.value inner) : store.Encloses outer inner := by
  obtain ⟨first, held, path⟩ := leads
  exact .head' (List.mem_filterMap.mpr ⟨slot, member, held⟩) path

theorem Encloses.slot {inner : Container} (encloses : store.Encloses outer inner) :
    ∃ slot ∈ store.slots outer, store.Leads slot.value inner := by
  obtain ⟨next, member, later⟩ := Relation.TransGen.head'_iff.mp encloses
  obtain ⟨slot, among, held⟩ := List.mem_filterMap.mp member
  exact ⟨slot, among, next, held, later⟩

theorem Circular.slot (circular : store.Circular value) (holds : value.container? = some outer) :
    ∃ slot ∈ store.slots outer, store.Circular slot.value := by
  obtain ⟨inner, leads, around⟩ := circular
  rcases leads.cases holds with rfl | ⟨slot, member, further⟩
  · obtain ⟨slot, member, back⟩ := around.slot
    exact ⟨slot, member, inner, back, around⟩
  · exact ⟨slot, member, inner, further, around⟩

theorem not_circular_of_scalar (scalar : value.container? = none) : ¬store.Circular value := by
  rintro ⟨inner, ⟨first, held, -⟩, -⟩
  rw [scalar] at held
  cases held

theorem Unfolds.field {record : RecordId} {fields : List (String × Json)} {slot : Slot}
    (keys : (fields.map Prod.fst).Perm (store.fields record).keys)
    (member : slot ∈ store.slots (.record record)) :
    ∃ key json, (key, slot) ∈ (store.fields record).entries ∧ (key, json) ∈ fields := by
  obtain ⟨⟨key, held⟩, among, rfl⟩ := List.mem_map.mp member
  obtain ⟨⟨name, json⟩, present, rfl⟩ :=
    List.mem_map.mp (keys.mem_iff.mpr (List.mem_map_of_mem (f := Prod.fst) among))
  exact ⟨name, json, among, present⟩

/-- Nothing that is inside itself unfolds. -/
theorem Unfolds.not_circular (unfolds : store.Unfolds value json) : ¬store.Circular value := by
  induction unfolds with
  | record _ keys _ induction =>
      intro circular
      obtain ⟨slot, member, inner⟩ := circular.slot rfl
      obtain ⟨key, json, held, present⟩ := Unfolds.field keys member
      exact induction key slot json held present inner
  | list length _ induction =>
      intro circular
      obtain ⟨slot, member, inner⟩ := circular.slot rfl
      obtain ⟨index, found⟩ := List.mem_iff_getElem?.mp member
      have bound := length ▸ (List.getElem?_eq_some_iff.mp found).1
      exact induction index slot _ found (List.getElem?_eq_getElem bound) inner
  | _ => exact not_circular_of_scalar rfl

theorem Unfolds.unique (unfolds : store.Unfolds value json)
    (again : store.Unfolds value other) : other = json := by
  induction unfolds generalizing other with
  | finite finite =>
      cases again with
      | finite => rfl
      | infinite infinite => simp [finite] at infinite
  | infinite infinite =>
      cases again with
      | finite finite => simp [infinite] at finite
      | infinite => rfl
  | @record record fields ascending keys each induction =>
      cases again with
      | @record _ fields' ascending' keys' each' =>
          have names : fields'.map Prod.fst = fields.map Prod.fst :=
            (keys'.trans keys.symm).eq_of_pairwise
              (fun _ _ _ _ less more => absurd more less.asymm) ascending' ascending
          congr 1
          refine List.ext_getElem (by simpa using congrArg List.length names) ?_
          intro index below' below
          have name : fields'[index].1 = fields[index].1 := by
            have same := congrArg (fun names => names[index]?) names
            simpa [below, below'] using same
          have listed : fields[index].1 ∈ (store.fields record).keys :=
            keys.mem_iff.mp (List.mem_map_of_mem (List.getElem_mem below))
          obtain ⟨⟨key, slot⟩, held, same⟩ := List.mem_map.mp listed
          obtain rfl : key = fields[index].1 := same
          have tree : fields'[index].2 = fields[index].2 :=
            induction _ slot _ held (List.getElem_mem below)
              (each' _ slot _ held (name ▸ List.getElem_mem below'))
          exact Prod.ext name tree
  | @list list items length each induction =>
      cases again with
      | @list _ items' length' each' =>
          congr 1
          refine List.ext_getElem (length'.trans length.symm) ?_
          intro index below' below
          have bound : index < (store.items list).length := length ▸ below
          have found := List.getElem?_eq_getElem bound
          exact induction index _ _ found (List.getElem?_eq_getElem below)
            (each' index _ _ found (List.getElem?_eq_getElem below'))
  | _ =>
      cases again
      rfl

end Store

namespace Writing

variable {α β : Type} {path : List Container} {writing : Writing α} {next : α → Writing β}
  {good : α → Prop} {fine : β → Prop} {reason : Prop} {container : Container}

/-- On a path, a writing gives what is described and leaves the set as it was, or it
fails, for the reason given. -/
inductive Goes (writing : Writing α) (path : List Container) (good : α → Prop) (reason : Prop) :
    Prop where
  | gives (result : α) (run : writing.run.run path = some (.ok result, path)) (fits : good result)
  | fails (left : List Container) (run : writing.run.run path = some (.error .cyclic, left))
      (because : reason)

theorem Goes.weaken {weaker : Prop} (goes : Goes writing path good reason)
    (further : reason → weaker) : Goes writing path good weaker := by
  cases goes with
  | gives result run fits => exact .gives result run fits
  | fails left run because => exact .fails left run (further because)

theorem goes_pure {result : α} (fits : good result) : Goes (pure result) path good reason :=
  .gives result rfl fits

theorem Goes.bind (first : Goes writing path good reason)
    (second : ∀ result, good result → Goes (next result) path fine reason) :
    Goes (writing >>= next) path fine reason := by
  cases first with
  | gives result run fits =>
      have goes : (writing >>= next).run.run path = (next result).run.run path := by
        rw [ExceptT.run_bind, StateT.run_bind, run]
        rfl
      cases second result fits with
      | gives last run' fits' => exact .gives last (goes.trans run') fits'
      | fails left run' because => exact .fails left (goes.trans run') because
  | fails left run because =>
      refine .fails left ?_ because
      rw [ExceptT.run_bind, StateT.run_bind, run]
      rfl

/-- The parts are written one after the other, on the same path. -/
theorem goes_mapM {parts : List β} {write : β → Writing α} (kind : β → α → Prop)
    (each : ∀ part ∈ parts, Goes (write part) path (kind part) reason) :
    Goes (parts.mapM write) path (List.Forall₂ kind parts) reason := by
  induction parts with
  | nil => exact goes_pure .nil
  | cons first rest induction =>
      rw [List.mapM_cons]
      refine (each first List.mem_cons_self).bind fun result fits => ?_
      refine (induction fun part among => each part (List.mem_cons_of_mem _ among)).bind ?_
      exact fun results all => goes_pure (.cons fits all)

theorem run_enter (container : Container) (path : List Container) :
    (Rendering.enter container : Writing Bool).run.run path =
      if container ∈ path then some (.ok false, path) else some (.ok true, container :: path) := by
  change (Except.ok <$> Rendering.enter container : Rendering (Except JsonFault Bool)).run path = _
  rw [StateT.run_map, Rendering.run_enter]
  split <;> rfl

theorem goes_within_of_mem (inside : container ∈ path) (because : reason) :
    Goes (within container writing) path good reason := by
  refine .fails path ?_ because
  rw [within, ExceptT.run_bind, StateT.run_bind, run_enter, if_pos inside]
  rfl

theorem goes_within_of_not_mem (apart : container ∉ path)
    (content : Goes writing (container :: path) good reason) :
    Goes (within container writing) path good reason := by
  have left : (container :: path).filter (· ≠ container) = path := by
    rw [List.filter_cons_of_neg (by simp), List.filter_eq_self]
    intro other among
    exact decide_eq_true fun same => apart (same ▸ among)
  have entered : (within container writing).run.run path =
      (do
        let result ← writing
        (Rendering.leave container : Writing Unit)
        return result : Writing α).run.run (container :: path) := by
    rw [within, ExceptT.run_bind, StateT.run_bind, run_enter, if_neg apart]
    rfl
  cases content with
  | gives result run fits =>
      refine .gives result ?_ fits
      rw [entered, ExceptT.run_bind, StateT.run_bind, run]
      exact congrArg (fun set => some (Except.ok result, set)) left
  | fails last run because =>
      refine .fails last ?_ because
      rw [entered, ExceptT.run_bind, StateT.run_bind, run]
      rfl

end Writing

namespace Store

variable {store : Store} {value : Value} {json : Json} {path : List Container}

/-- The value leads to a container of the path, or to one that is inside itself. -/
def Blocked (store : Store) (path : List Container) (value : Value) : Prop :=
  ∃ container, store.Leads value container ∧
    (container ∈ path ∨ store.Encloses container container)

theorem Blocked.within {slot : Slot} {outer : Container}
    (blocked : store.Blocked (outer :: path) slot.value)
    (holds : value.container? = some outer) (member : slot ∈ store.slots outer) :
    store.Blocked path value := by
  obtain ⟨inner, leads, why⟩ := blocked
  rcases why with among | around
  · rcases List.mem_cons.mp among with rfl | before
    · exact ⟨inner, ⟨inner, holds, .refl⟩, .inr (leads.encloses member)⟩
    · exact ⟨inner, leads.within holds member, .inl before⟩
  · exact ⟨inner, leads.within holds member, .inr around⟩

theorem unfolds_ofFields {record : RecordId} {fields : List (String × Json)}
    (written : List.Forall₂ (fun entry field => field.1 = entry.1 ∧
      store.Unfolds entry.2.value field.2) (store.fields record).entries fields) :
    store.Unfolds (.record record) (Json.ofFields fields) := by
  have names : fields.map Prod.fst = (store.fields record).keys :=
    Dictionary.names_of_forall₂ (fun slot json => store.Unfolds slot.value json) written
  have distinct : (fields.map Prod.fst).Nodup := names ▸ (store.fields record).distinct
  obtain ⟨sorted, same, ascending, all⟩ := Json.ofFields_eq_object distinct
  rw [same]
  refine .record ascending (names ▸ all.map Prod.fst) ?_
  intro key slot json held present
  exact Dictionary.related_of_mem (fun slot json => store.Unfolds slot.value json) written
    (store.fields record).distinct held (all.mem_iff.mp present)

theorem unfolds_array {list : ListId} {items : List Json}
    (written : List.Forall₂ (fun slot => store.Unfolds slot.value) (store.items list) items) :
    store.Unfolds (.list list) (.array items) := by
  refine .list written.length_eq.symm ?_
  intro index slot json found present
  obtain ⟨below, rfl⟩ := List.getElem?_eq_some_iff.mp found
  obtain ⟨below', rfl⟩ := List.getElem?_eq_some_iff.mp present
  exact written.get below below'

theorem goes_jsonWithin (depth : Nat) (path : List Container) (value : Value)
    (deep : store.remaining path < depth) :
    (store.jsonWithin depth value).Goes path (store.Unfolds value) (store.Blocked path value) := by
  induction depth generalizing path value with
  | zero => cases deep
  | succ depth induction =>
      cases value with
      | record record =>
          rw [jsonWithin]
          by_cases inside : .record record ∈ path
          · exact Writing.goes_within_of_mem inside ⟨_, ⟨_, rfl, .refl⟩, .inl inside⟩
          · apply Writing.goes_within_of_not_mem inside
            refine (Writing.goes_mapM (fun entry field => field.1 = entry.1 ∧
              store.Unfolds entry.2.value field.2) fun entry among => ?_).bind ?_
            · have member : entry.2 ∈ store.slots (.record record) := List.mem_map_of_mem among
              have fewer := remaining_cons_lt (.record record) member inside
              refine Writing.Goes.bind ((induction _ entry.2.value (by omega)).weaken ?_) ?_
              · exact fun blocked => blocked.within rfl member
              · exact fun json unfolds => Writing.goes_pure ⟨rfl, unfolds⟩
            · exact fun fields written => Writing.goes_pure (unfolds_ofFields written)
      | list list =>
          rw [jsonWithin]
          by_cases inside : .list list ∈ path
          · exact Writing.goes_within_of_mem inside ⟨_, ⟨_, rfl, .refl⟩, .inl inside⟩
          · apply Writing.goes_within_of_not_mem inside
            refine (Writing.goes_mapM (fun slot => store.Unfolds slot.value)
              fun slot member => ?_).bind ?_
            · have fewer := remaining_cons_lt (.list list) member inside
              exact (induction _ slot.value (by omega)).weaken fun blocked =>
                blocked.within rfl member
            · exact fun items written => Writing.goes_pure (unfolds_array written)
      | null => exact Writing.goes_pure .null
      | bool value => exact Writing.goes_pure (.bool value)
      | text value => exact Writing.goes_pure (.text value)
      | number value =>
          rw [jsonWithin]
          split
          · next finite => exact Writing.goes_pure (.finite finite)
          · next infinite => exact Writing.goes_pure (.infinite (by simpa using infinite))

/-- A value is written as the tree it unfolds to, or it is circular and there is none. -/
theorem serialized_cases (store : Store) (value : Value) :
    (∃ json, store.serialized value = .ok json ∧ store.Unfolds value json) ∨
      store.serialized value = .error .cyclic ∧ store.Circular value := by
  unfold serialized
  cases goes_jsonWithin _ [] value store.remaining_nil_lt with
  | gives json run unfolds =>
      left
      refine ⟨json, ?_, unfolds⟩
      rw [StateT.run'_eq, run]
      rfl
  | fails left run because =>
      right
      obtain ⟨container, leads, why⟩ := because
      refine ⟨?_, container, leads, why.resolve_left List.not_mem_nil⟩
      rw [StateT.run'_eq, run]
      rfl

theorem serialized_eq_ok_iff : store.serialized value = .ok json ↔ store.Unfolds value json := by
  rcases store.serialized_cases value with ⟨written, ended, unfolds⟩ | ⟨failed, circular⟩
  · rw [ended, Except.ok.injEq]
    exact ⟨fun same => same ▸ unfolds, fun again => again.unique unfolds⟩
  · rw [failed]
    exact iff_of_false nofun fun unfolds => unfolds.not_circular circular

theorem serialized_eq_error_iff :
    store.serialized value = .error .cyclic ↔ store.Circular value := by
  rcases store.serialized_cases value with ⟨written, ended, unfolds⟩ | ⟨failed, circular⟩
  · rw [ended]
    exact iff_of_false nofun unfolds.not_circular
  · exact iff_of_true failed circular

/-- How a value is written as a tree. -/
structure Exported (store : Store) (value : Value) : Prop where
  /-- The writing comes to an end on each path, and leaves the set as it was if it succeeds. -/
  ends : ∀ path depth, store.remaining path < depth →
    (∃ json, (store.jsonWithin depth value).run.run path = some (.ok json, path)) ∨
      ∃ left, (store.jsonWithin depth value).run.run path = some (.error .cyclic, left)
  /-- It fails just where a container that the value leads to is inside itself. -/
  fails : store.serialized value = .error .cyclic ↔
    ∃ container, store.Leads value container ∧ store.Encloses container container
  reported : ∀ message, store.jsonFault value = some message ↔
    store.serialized value = .error .cyclic ∧ message = "cyclic data cannot be serialized"
  absent : store.serialized value = .error .cyclic → store.toJson value = .null
  whole : store.serialized value ≠ .error .cyclic → store.Unfolds value (store.toJson value)
  /-- There is no other tree to write. -/
  only : ∀ json, store.Unfolds value json → store.toJson value = json

/-- Whatever the data, a value is written as the tree that it unfolds to, and writing it
fails if there is none because something in it is inside itself. -/
theorem serialization_fails_on_cycles (store : Store) (value : Value) : store.Exported value where
  ends := fun path depth deep => by
    cases goes_jsonWithin depth path value deep with
    | gives json run => exact .inl ⟨json, run⟩
    | fails left run => exact .inr ⟨left, run⟩
  fails := serialized_eq_error_iff
  reported := fun message => by
    unfold jsonFault
    rcases store.serialized_cases value with ⟨json, ended, -⟩ | ⟨failed, -⟩
    · rw [ended]
      exact iff_of_false nofun nofun
    · rw [failed, Option.some.injEq, eq_comm]
      exact ⟨fun same => ⟨rfl, same⟩, And.right⟩
  absent := fun failed => by rw [toJson, failed]
  whole := fun succeeded => by
    rcases store.serialized_cases value with ⟨json, ended, unfolds⟩ | ⟨failed, -⟩
    · rw [toJson, ended]
      exact unfolds
    · exact absurd failed succeeded
  only := fun json unfolds => by rw [toJson, serialized_eq_ok_iff.mpr unfolds]

-- a list that is in another one twice is written twice
example : (⟨#[], #[[.plain (.text "x")], [.plain (.list ⟨0⟩), .plain (.list ⟨0⟩)]], #[]⟩ :
    Store).toJson (.list ⟨1⟩) = .array [.array [.text "x"], .array [.text "x"]] := rfl

-- a list that is inside itself is not written
example : (⟨#[], #[[.plain (.text "x"), .plain (.list ⟨0⟩)]], #[]⟩ : Store).jsonFault (.list ⟨0⟩) =
    some "cyclic data cannot be serialized" := rfl

end Store

end ReactiveView
