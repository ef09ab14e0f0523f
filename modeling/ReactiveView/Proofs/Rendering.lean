import Mathlib.Logic.Relation
import ReactiveView.Data.Rendering
import ReactiveView.Proofs.Distinct

/-!
# What a rendering is

The recursive rendering carries the path of the containers that it is inside of. The
traversal, whose set is one for all of it, is this rendering: at each value the set is the
path, so it cuts where a container is its own ancestor and nowhere else, and the bound on
the depth never shows. A text depends on the lists that it is rendered from and on nothing
else.
-/

namespace ReactiveView

set_option autoImplicit false

namespace Store

variable {store other : Store} {path path' : List Container}

/-- All containers there are. -/
def containers (store : Store) : List Container :=
  (List.range store.records.size).map (fun index => .record ⟨index⟩) ++
    (List.range store.lists.size).map (fun index => .list ⟨index⟩)

theorem nodup_containers (store : Store) : store.containers.Nodup := by
  refine List.Nodup.append ?_ ?_ ?_
  · exact List.nodup_range.map (fun left right same => by simpa using same)
  · exact List.nodup_range.map (fun left right same => by simpa using same)
  · intro container left right
    obtain ⟨index, -, rfl⟩ := List.mem_map.mp left
    obtain ⟨index', -, impossible⟩ := List.mem_map.mp right
    cases impossible

theorem mem_containers_of_slots {container : Container}
    (full : (store.slots container).length ≠ 0) : container ∈ store.containers := by
  cases container with
  | record record =>
      refine List.mem_append_left _ (List.mem_map.mpr ⟨record.index, ?_, rfl⟩)
      by_contra outside
      simp only [List.mem_range, Nat.not_lt] at outside
      simp [slots, fields, Array.getElem?_eq_none outside, Dictionary.empty] at full
  | list list =>
      refine List.mem_append_right _ (List.mem_map.mpr ⟨list.index, ?_, rfl⟩)
      by_contra outside
      simp only [List.mem_range, Nat.not_lt] at outside
      simp [slots, items, Array.getElem?_eq_none outside] at full

/-- How many containers a path can still enter. -/
def remaining (store : Store) (path : List Container) : Nat :=
  (store.containers.filter (· ∉ path)).length

theorem remaining_nil (store : Store) : store.remaining [] = store.containerCount := by
  simp [remaining, containers, containerCount]

theorem remaining_cons_lt (container : Container) {slot : Slot}
    (member : slot ∈ store.slots container) (apart : container ∉ path) :
    store.remaining (container :: path) < store.remaining path := by
  have there : container ∈ store.containers :=
    mem_containers_of_slots (Nat.ne_zero_of_lt (List.length_pos_of_mem member))
  have split : store.containers.filter (· ∉ container :: path) =
      (store.containers.filter (· ∉ path)).filter (· ≠ container) := by
    rw [List.filter_filter]
    apply List.filter_congr
    intro other _
    simp [not_or]
  rw [remaining, split]
  refine List.length_filter_lt_length_iff_exists.mpr ⟨container, ?_, by simp⟩
  exact List.mem_filter.mpr ⟨there, by simpa using apart⟩

/-- The text of a value on a path: a list on its own path is empty. -/
def spelled (store : Store) (path : List Container) (value : Value) : String :=
  match value with
  | .null => "null"
  | .bool true => "true"
  | .bool false => "false"
  | .number value => Number.text value
  | .text value => value
  | .record _ => "[object Object]"
  | .list list =>
      if .list list ∈ path then ""
      else
        String.intercalate "," ((store.items list).attach.map fun ⟨slot, _⟩ =>
          if slot.value = .null then "" else store.spelled (.list list :: path) slot.value)
termination_by store.remaining path
decreasing_by
  exact remaining_cons_lt (.list list) ‹slot ∈ store.items list› ‹_›

/-- The form of a value for inspection on a path, with a mark for a container on its own path. -/
def shown (store : Store) (path : List Container) (value : Value) : String :=
  match value with
  | .null => "Null"
  | .bool true => "Bool(true)"
  | .bool false => "Bool(false)"
  | .number value => "Number(" ++ Number.text value ++ ")"
  | .text value => "Text(" ++ Text.quoted value ++ ")"
  | .record record =>
      if .record record ∈ path then "[Circular]"
      else
        enclosed "\x7b" "\x7d" ((store.fields record).entries.attach.map fun ⟨field, _⟩ =>
          Text.quoted field.1 ++ ": " ++ store.shown (.record record :: path) field.2.value)
  | .list list =>
      if .list list ∈ path then "[Circular]"
      else
        enclosed "[" "]" ((store.items list).attach.map fun ⟨slot, _⟩ =>
          store.shown (.list list :: path) slot.value)
termination_by store.remaining path
decreasing_by
  · exact remaining_cons_lt (.record record)
      (List.mem_map_of_mem ‹field ∈ (store.fields record).entries›) ‹_›
  · exact remaining_cons_lt (.list list) ‹slot ∈ store.items list› ‹_›

theorem spelled_of_mem {list : ListId} (inside : .list list ∈ path) :
    store.spelled path (.list list) = "" := by
  rw [spelled, if_pos inside]

theorem spelled_of_not_mem {list : ListId} (apart : .list list ∉ path) :
    store.spelled path (.list list) =
      String.intercalate "," ((store.items list).map fun slot =>
        if slot.value = .null then "" else store.spelled (.list list :: path) slot.value) := by
  rw [spelled, if_neg apart]
  simp only [List.map_attach_eq_pmap, List.pmap_eq_map]

theorem shown_of_mem {value : Value} {container : Container}
    (holds : value.container? = some container) (inside : container ∈ path) :
    store.shown path value = "[Circular]" := by
  cases value with
  | record record =>
      cases holds
      rw [shown, if_pos inside]
  | list list =>
      cases holds
      rw [shown, if_pos inside]
  | _ => cases holds

theorem shown_record_of_not_mem {record : RecordId} (apart : .record record ∉ path) :
    store.shown path (.record record) =
      enclosed "\x7b" "\x7d" ((store.fields record).entries.map fun field =>
        Text.quoted field.1 ++ ": " ++ store.shown (.record record :: path) field.2.value) := by
  rw [shown, if_neg apart]
  simp only [List.map_attach_eq_pmap, List.pmap_eq_map]

theorem shown_list_of_not_mem {list : ListId} (apart : .list list ∉ path) :
    store.shown path (.list list) =
      enclosed "[" "]" ((store.items list).map fun slot =>
        store.shown (.list list :: path) slot.value) := by
  rw [shown, if_neg apart]
  simp only [List.map_attach_eq_pmap, List.pmap_eq_map]

end Store

namespace Rendering

variable {container : Container} {mark text : String} {content : Rendering String}
  {path : List Container}

theorem run_enter (container : Container) (path : List Container) :
    (enter container).run path =
      if container ∈ path then some (false, path) else some (true, container :: path) := rfl

theorem run_leave (container : Container) (path : List Container) :
    (leave container).run path = some ((), path.filter (· ≠ container)) := rfl

theorem run_within_of_mem (inside : container ∈ path) :
    (within container mark content).run path = some (mark, path) := by
  rw [within, StateT.run_bind, run_enter, if_pos inside]
  rfl

/-- A container that enters the set leaves it again. -/
theorem run_within_of_not_mem (apart : container ∉ path)
    (filled : content.run (container :: path) = some (text, container :: path)) :
    (within container mark content).run path = some (text, path) := by
  have left : (container :: path).filter (· ≠ container) = path := by
    rw [List.filter_cons_of_neg (by simp), List.filter_eq_self]
    intro other among
    exact decide_eq_true fun same => apart (same ▸ among)
  rw [within, StateT.run_bind, run_enter, if_neg apart]
  simp only [Option.bind_eq_bind, Option.bind_some, if_true, StateT.run_bind, filled, run_leave, left]
  rfl

theorem run_mapM {α : Type} (parts : List α) {render : α → Rendering String} {shown : α → String}
    (each : ∀ part ∈ parts, (render part).run path = some (shown part, path)) :
    (parts.mapM render).run path = some (parts.map shown, path) := by
  induction parts with
  | nil => rfl
  | cons first rest induction =>
      have last := induction fun part among => each part (List.mem_cons_of_mem _ among)
      simp only [List.mapM_cons, StateT.run_bind, each first List.mem_cons_self, last,
        Option.bind_eq_bind, Option.bind_some, StateT.run_pure, List.map_cons]
      rfl

end Rendering

namespace Store

variable {store other : Store} {path path' : List Container}

theorem run_textWithin (depth : Nat) (path : List Container) (value : Value)
    (deep : store.remaining path < depth) :
    (store.textWithin depth value).run path = some (store.spelled path value, path) := by
  induction depth generalizing path value with
  | zero => cases deep
  | succ depth induction =>
      cases value with
      | list list =>
          rw [textWithin]
          by_cases inside : .list list ∈ path
          · rw [spelled_of_mem inside]
            exact Rendering.run_within_of_mem inside
          · rw [spelled_of_not_mem inside]
            apply Rendering.run_within_of_not_mem inside
            rw [StateT.run_bind, Rendering.run_mapM]
            · rfl
            · intro slot member
              split
              · rfl
              · have fewer := remaining_cons_lt (.list list) member inside
                exact induction _ slot.value (by omega)
      | bool value => cases value <;> simp [textWithin, spelled]
      | _ => simp [textWithin, spelled]

theorem run_inspectedWithin (depth : Nat) (path : List Container) (value : Value)
    (deep : store.remaining path < depth) :
    (store.inspectedWithin depth value).run path = some (store.shown path value, path) := by
  induction depth generalizing path value with
  | zero => cases deep
  | succ depth induction =>
      cases value with
      | record record =>
          rw [inspectedWithin]
          by_cases inside : .record record ∈ path
          · rw [shown_of_mem rfl inside]
            exact Rendering.run_within_of_mem inside
          · rw [shown_record_of_not_mem inside]
            apply Rendering.run_within_of_not_mem inside
            rw [StateT.run_bind, Rendering.run_mapM]
            · rfl
            · intro field member
              have fewer := remaining_cons_lt (.record record) (List.mem_map_of_mem member) inside
              rw [StateT.run_bind, induction _ field.2.value (by omega)]
              rfl
      | list list =>
          rw [inspectedWithin]
          by_cases inside : .list list ∈ path
          · rw [shown_of_mem rfl inside]
            exact Rendering.run_within_of_mem inside
          · rw [shown_list_of_not_mem inside]
            apply Rendering.run_within_of_not_mem inside
            rw [StateT.run_bind, Rendering.run_mapM]
            · rfl
            · intro slot member
              have fewer := remaining_cons_lt (.list list) member inside
              exact induction _ slot.value (by omega)
      | bool value => cases value <;> simp [inspectedWithin, shown]
      | _ => simp [inspectedWithin, shown]

/-- The depth that a rendering is given suffices. -/
theorem remaining_nil_lt (store : Store) : store.remaining [] < store.containerCount + 1 := by
  rw [remaining_nil]
  exact Nat.lt_succ_self _

theorem text_eq_spelled (store : Store) (value : Value) :
    store.text value = store.spelled [] value := by
  rw [text, StateT.run'_eq, run_textWithin _ [] value store.remaining_nil_lt]
  rfl

theorem inspected_eq_shown (store : Store) (value : Value) :
    store.inspected value = store.shown [] value := by
  rw [inspected, StateT.run'_eq, run_inspectedWithin _ [] value store.remaining_nil_lt]
  rfl

/-- A value is rendered by way of a list: it is the list, or the list is an element
of one that it is rendered by way of. -/
def Renders (store : Store) (value : Value) (list : ListId) : Prop :=
  ∃ first, value = .list first ∧
    Relation.ReflTransGen
      (fun outer inner => ∃ slot ∈ store.items outer, slot.value = .list inner) first list

theorem renders_self (store : Store) (list : ListId) : store.Renders (.list list) list :=
  ⟨list, rfl, .refl⟩

theorem Renders.within {outer inner : ListId} {slot : Slot}
    (renders : store.Renders slot.value inner) (member : slot ∈ store.items outer) :
    store.Renders (.list outer) inner := by
  obtain ⟨first, same, path⟩ := renders
  exact ⟨outer, rfl, path.head ⟨slot, member, same⟩⟩

theorem map_elements_agrees {list : ListId} {render render' : Value → String}
    (same : (other.items list).map Slot.value = (store.items list).map Slot.value)
    (inner : ∀ slot ∈ store.items list, render' slot.value = render slot.value) :
    (other.items list).map (fun slot => if slot.value = .null then "" else render' slot.value) =
      (store.items list).map (fun slot =>
        if slot.value = .null then "" else render slot.value) := by
  have parts (data : Store) (shown : Value → String) :
      (data.items list).map (fun slot => if slot.value = .null then "" else shown slot.value) =
        ((data.items list).map Slot.value).map (fun value =>
          if value = .null then "" else shown value) := by
    simp only [List.map_map, Function.comp_def]
  rw [parts, same, ← parts]
  apply List.map_congr_left
  intro slot member
  rw [inner slot member]

/-- The text of a value depends on what the lists it is rendered by way of hold, and on
which of them are on the path. -/
theorem spelled_agrees (path path' : List Container) (value : Value)
    (same : ∀ list, store.Renders value list →
      (other.items list).map Slot.value = (store.items list).map Slot.value)
    (cut : ∀ list, store.Renders value list → (.list list ∈ path' ↔ .list list ∈ path)) :
    other.spelled path' value = store.spelled path value := by
  fun_induction store.spelled path value generalizing path' with
  | case7 path list inside =>
      rw [spelled_of_mem ((cut list (renders_self store list)).mpr inside)]
  | case8 path list apart induction =>
      have apart' : .list list ∉ path' := fun inside =>
        apart ((cut list (renders_self store list)).mp inside)
      rw [spelled_of_not_mem apart']
      simp only [List.map_attach_eq_pmap, List.pmap_eq_map]
      congr 1
      apply map_elements_agrees (same list (renders_self store list))
      intro slot member
      apply induction slot member
      · exact fun inner renders => same inner (renders.within member)
      · intro inner renders
        rw [List.mem_cons, List.mem_cons, cut inner (renders.within member)]
  | _ => rw [spelled]

theorem text_agrees {value : Value}
    (same : ∀ list, store.Renders value list →
      (other.items list).map Slot.value = (store.items list).map Slot.value) :
    other.text value = store.text value := by
  rw [text_eq_spelled, text_eq_spelled]
  exact spelled_agrees [] [] value same fun _ _ => Iff.rfl

/-- A value leads to a container: it is the container, or leads to one that holds it. -/
def Leads (store : Store) (value : Value) (container : Container) : Prop :=
  ∃ first, value.container? = some first ∧
    Relation.ReflTransGen (fun outer inner => inner ∈ store.nested outer) first container

theorem Leads.within {outer inner : Container} {slot : Slot} {value : Value}
    (leads : store.Leads slot.value inner) (holds : value.container? = some outer)
    (member : slot ∈ store.slots outer) : store.Leads value inner := by
  obtain ⟨first, same, path⟩ := leads
  exact ⟨outer, holds, path.head (List.mem_filterMap.mpr ⟨slot, member, same⟩)⟩

theorem shown_agrees (path path' : List Container) (value : Value)
    (cut : ∀ container, store.Leads value container → (container ∈ path' ↔ container ∈ path)) :
    store.shown path' value = store.shown path value := by
  fun_induction store.shown path value generalizing path' with
  | case6 path record inside =>
      rw [shown_of_mem rfl ((cut _ ⟨_, rfl, .refl⟩).mpr inside)]
  | case7 path record apart induction =>
      have apart' : .record record ∉ path' := fun inside =>
        apart ((cut _ ⟨_, rfl, .refl⟩).mp inside)
      rw [shown_record_of_not_mem apart']
      simp only [List.map_attach_eq_pmap, List.pmap_eq_map]
      congr 1
      apply List.map_congr_left
      intro field member
      rw [induction field member]
      intro inner leads
      rw [List.mem_cons, List.mem_cons, cut inner (leads.within rfl (List.mem_map_of_mem member))]
  | case8 path list inside =>
      rw [shown_of_mem rfl ((cut _ ⟨_, rfl, .refl⟩).mpr inside)]
  | case9 path list apart induction =>
      have apart' : .list list ∉ path' := fun inside =>
        apart ((cut _ ⟨_, rfl, .refl⟩).mp inside)
      rw [shown_list_of_not_mem apart']
      simp only [List.map_attach_eq_pmap, List.pmap_eq_map]
      congr 1
      apply List.map_congr_left
      intro slot member
      apply induction slot member
      intro inner leads
      rw [List.mem_cons, List.mem_cons, cut inner (leads.within rfl member)]
  | _ => rw [shown]

/-- How a value is rendered as text and for inspection. -/
structure Rendered (store : Store) (value : Value) : Prop where
  text : store.text value = store.spelled [] value
  inspected : store.inspected value = store.shown [] value
  /-- At each value the set of the traversal is the path to it, also when the value has been
  rendered. Each depth that exceeds the containers left is enough, and gives the same. -/
  spells : ∀ path depth, store.remaining path < depth →
    (store.textWithin depth value).run path = some (store.spelled path value, path)
  shows : ∀ path depth, store.remaining path < depth →
    (store.inspectedWithin depth value).run path = some (store.shown path value, path)
  /-- What has no container of the path in it is rendered in full at each place. -/
  whole : ∀ path, (∀ list, store.Renders value list → .list list ∉ path) →
    store.spelled path value = store.spelled [] value
  entire : ∀ path, (∀ container, store.Leads value container → container ∉ path) →
    store.shown path value = store.shown [] value

/-- Whatever the data, a rendering comes to an end, leaves no container in the set, and cuts
just the containers that are inside themselves. -/
theorem renderings_cut_cycles (store : Store) (value : Value) : store.Rendered value where
  text := store.text_eq_spelled value
  inspected := store.inspected_eq_shown value
  spells := fun path depth deep => run_textWithin depth path value deep
  shows := fun path depth deep => run_inspectedWithin depth path value deep
  whole := fun path apart => spelled_agrees [] path value (fun _ _ => rfl) fun list renders =>
    iff_of_false (apart list renders) List.not_mem_nil
  entire := fun path apart => shown_agrees [] path value fun container leads =>
    iff_of_false (apart container leads) List.not_mem_nil

end Store

end ReactiveView
