import ReactiveView.Proofs.Instrumentation

/-!
# The traversal of instrumentation

Instrumentation descends into containers: it marks one as entered, gives registries to
its plain slots, and descends into what they hold, one after the other. A container
entered before is passed by, so the descent comes back however the data is shared or
wound up. Afterwards the reactive slots are those from before and the slots of the
containers reached; the registries added are empty and belong to one slot each.
-/

namespace ReactiveView

set_option autoImplicit false

namespace Dictionary

variable {α β : Type}

theorem map_insertEntry {look : α → β} {key : String} {old value : α}
    {entries : List (String × α)} (found : entries.lookup key = some old)
    (same : look value = look old) :
    (insertEntry key value entries).map (fun entry => (entry.1, look entry.2)) =
      entries.map (fun entry => (entry.1, look entry.2)) := by
  induction entries with
  | nil => cases found
  | cons entry rest induction =>
      obtain ⟨name, held⟩ := entry
      by_cases here : name = key
      · subst here
        simp only [List.lookup_cons, beq_self_eq_true, Option.some.injEq] at found
        simp [insertEntry, found, same]
      · have differs : (key == name) = false := by simpa using fun equal => here (Eq.symm equal)
        simp only [List.lookup_cons, differs] at found
        simp only [insertEntry, if_neg here, List.map_cons, induction found]

end Dictionary

namespace Store

variable {store middle later : Store}

/-- The fields of a record in their order, without the registries. -/
def named (store : Store) (record : RecordId) : List (String × Value) :=
  (store.fields record).entries.map (fun entry => (entry.1, entry.2.value))

def elements (store : Store) (list : ListId) : List Value :=
  (store.items list).map Slot.value

/-- Each container holds the same values, under the same names and in the same order. -/
structure SameContent (store later : Store) : Prop where
  named : ∀ record, later.named record = store.named record
  elements : ∀ list, later.elements list = store.elements list

namespace SameContent

theorem refl (store : Store) : store.SameContent store := ⟨fun _ => rfl, fun _ => rfl⟩

theorem trans (first : store.SameContent middle) (second : middle.SameContent later) :
    store.SameContent later where
  named := fun record => (second.named record).trans (first.named record)
  elements := fun list => (second.elements list).trans (first.elements list)

theorem places (same : store.SameContent later) (container : Container) :
    later.places container = store.places container := by
  cases container with
  | record record =>
      have keys := congrArg (List.map Prod.fst) (same.named record)
      simp only [Store.named, List.map_map] at keys
      exact congrArg (List.map (Place.field record)) keys
  | list list =>
      have length := congrArg List.length (same.elements list)
      simp only [Store.elements, List.length_map] at length
      simp only [Store.places, length]

theorem nested (same : store.SameContent later) (container : Container) :
    later.nested container = store.nested container := by
  cases container with
  | record record =>
      have held := congrArg (List.filterMap (fun field => field.2.container?)) (same.named record)
      simp only [Store.named, List.filterMap_map] at held
      simp only [Store.nested, slots, List.filterMap_map]
      exact held
  | list list =>
      have held := congrArg (List.filterMap Value.container?) (same.elements list)
      simp only [Store.elements, List.filterMap_map] at held
      exact held

end SameContent

theorem sameContent_put {place : Place} {old slot : Slot} (found : store.slot? place = some old)
    (same : slot.value = old.value) : store.SameContent (store.put place slot) := by
  cases place with
  | field record key =>
      refine ⟨?_, fun _ => rfl⟩
      intro other
      by_cases here : record.index = other.index
      · obtain rfl : record = other := by cases record; cases other; simp_all
        cases held : store.records[record.index]? with
        | none => simp [slot?, fields, held, Dictionary.find?, Dictionary.empty] at found
        | some table =>
            simp only [slot?, fields, held, Option.getD_some] at found
            simp only [named, put, fields, Array.getElem?_modify, held, if_pos, Option.map_some,
              Option.getD_some]
            exact Dictionary.map_insertEntry found same
      · simp [named, put, fields, Array.getElem?_modify, here]
  | item list index =>
      refine ⟨fun _ => rfl, ?_⟩
      intro other
      by_cases here : list.index = other.index
      · obtain rfl : list = other := by cases list; cases other; simp_all
        cases held : store.lists[list.index]? with
        | none => simp [slot?, items, held] at found
        | some slots =>
            simp only [slot?, items, held, Option.getD_some] at found
            obtain ⟨inside, rfl⟩ := List.getElem?_eq_some_iff.mp found
            have unchanged : (slots.map Slot.value).set index slots[index].value =
                slots.map Slot.value := by
              rw [← List.getElem_map Slot.value (h := by simpa using inside)]
              exact List.set_getElem_self _
            simp [elements, put, items, Array.getElem?_modify, held, List.map_set, same, unchanged]
      · simp [elements, put, items, Array.getElem?_modify, here]

theorem sameContent_attach (store : Store) (place : Place) :
    store.SameContent (store.attach place) := by
  by_cases plain : ∃ value, store.slot? place = some ⟨value, none⟩
  · obtain ⟨value, found⟩ := plain
    have untouched : store.newRegistry.2.slot? place = some ⟨value, none⟩ := by
      rw [store.sameData_newRegistry.slot?, found]
    rw [attach_of_plain found]
    have added : store.SameContent store.newRegistry.2 := ⟨fun _ => rfl, fun _ => rfl⟩
    exact added.trans (sameContent_put untouched rfl)
  · rw [attach_of_not_plain (fun value found => plain ⟨value, found⟩)]
    exact SameContent.refl store

theorem sameContent_foldl_attach (store : Store) (places : List Place) :
    store.SameContent (places.foldl attach store) := by
  induction places generalizing store with
  | nil => exact SameContent.refl store
  | cons place rest induction => exact (sameContent_attach store place).trans (induction _)

/-- Registries are added for slots that had none: each is beyond those from before, and
no other slot got the same one. -/
structure Allots (store later : Store) : Prop where
  grows : store.registries.size ≤ later.registries.size
  added : ∀ place registry, store.registryAt place = none →
    later.registryAt place = some registry →
    store.registries.size ≤ registry.index ∧ registry.index < later.registries.size
  apart : ∀ place other registry, store.registryAt place = none →
    later.registryAt place = some registry → later.registryAt other = some registry →
    other = place ∨ store.registryAt other = some registry

namespace Allots

theorem refl (store : Store) : store.Allots store := by
  refine ⟨Nat.le_refl _, ?_, ?_⟩
  · intro place registry plain attached
    rw [plain] at attached
    cases attached
  · intro place other registry plain attached
    rw [plain] at attached
    cases attached

theorem trans (first : store.Allots middle) (second : middle.Allots later)
    (before : store.Instruments middle) (after : middle.Instruments later) :
    store.Allots later := by
  have same {place : Place} {held registry : RegistryId}
      (between : middle.registryAt place = some held)
      (attached : later.registryAt place = some registry) : held = registry :=
    Option.some.inj ((after.kept place held between).symm.trans attached)
  refine ⟨first.grows.trans second.grows, ?_, ?_⟩
  · intro place registry plain attached
    cases between : middle.registryAt place with
    | none =>
        obtain ⟨low, high⟩ := second.added place registry between attached
        exact ⟨first.grows.trans low, high⟩
    | some held =>
        obtain rfl := same between attached
        obtain ⟨low, high⟩ := first.added place held plain between
        exact ⟨low, high.trans_le second.grows⟩
  · intro place other registry plain attached attached'
    cases between : middle.registryAt place with
    | none =>
        obtain ⟨low, -⟩ := second.added place registry between attached
        rcases second.apart place other registry between attached attached' with equal | held
        · exact .inl equal
        · cases early : store.registryAt other with
          | none =>
              have high := (first.added other registry early held).2
              omega
          | some old =>
              rw [before.kept other old early] at held
              exact .inr held
    | some held =>
        obtain rfl := same between attached
        cases between' : middle.registryAt other with
        | none =>
            have high := (first.added place held plain between).2
            have low := (second.added other held between' attached').1
            omega
        | some held' =>
            obtain rfl := same between' attached'
            exact first.apart place other held' plain between between'

end Allots

theorem registryAt_attach_of_ne {place other : Place} (differs : other ≠ place) :
    (store.attach place).registryAt other = store.registryAt other := by
  by_cases plain : ∃ value, store.slot? place = some ⟨value, none⟩
  · obtain ⟨value, found⟩ := plain
    simp only [registryAt, slot?_attach_of_plain found, if_neg differs]
  · rw [attach_of_not_plain (fun value found => plain ⟨value, found⟩)]

theorem allots_attach (store : Store) (place : Place) : store.Allots (store.attach place) := by
  by_cases plain : ∃ value, store.slot? place = some ⟨value, none⟩
  · obtain ⟨value, found⟩ := plain
    have size : (store.attach place).registries.size = store.registries.size + 1 := by
      rw [attach_of_plain found, size_registries_put]
      exact Array.size_push _
    have here {other : Place} {registry : RegistryId} (early : store.registryAt other = none)
        (attached : (store.attach place).registryAt other = some registry) :
        other = place ∧ registry = ⟨store.registries.size⟩ := by
      by_cases equal : other = place
      · subst equal
        simp only [registryAt, slot?_attach_of_plain found, if_pos, Option.bind_some,
          Option.some.injEq] at attached
        exact ⟨rfl, attached.symm⟩
      · rw [registryAt_attach_of_ne equal, early] at attached
        cases attached
    refine ⟨by omega, ?_, ?_⟩
    · intro other registry early attached
      obtain ⟨-, rfl⟩ := here early attached
      exact ⟨Nat.le_refl _, by rw [size]; exact Nat.lt_succ_self _⟩
    · intro first other registry early attached attached'
      obtain ⟨rfl, rfl⟩ := here early attached
      by_cases equal : other = first
      · exact .inl equal
      · rw [registryAt_attach_of_ne equal] at attached'
        exact .inr attached'
  · rw [attach_of_not_plain (fun value found => plain ⟨value, found⟩)]
    exact Allots.refl store

theorem allots_foldl_attach (store : Store) (places : List Place) :
    store.Allots (places.foldl attach store) := by
  induction places generalizing store with
  | nil => exact Allots.refl store
  | cons place rest induction =>
      exact (allots_attach store place).trans (induction _) (instruments_attach store place)
        (instruments_foldl_attach _ rest)

theorem registryAt_foldl_attach_of_not_mem {places : List Place} {place : Place}
    (apart : place ∉ places) :
    (places.foldl attach store).registryAt place = store.registryAt place := by
  induction places generalizing store with
  | nil => rfl
  | cons first rest induction =>
      rw [List.mem_cons, not_or] at apart
      obtain ⟨differs, apart⟩ := apart
      rw [List.foldl_cons, induction apart, registryAt_attach_of_ne differs]

theorem foldl_attach_of_reactive {places : List Place}
    (reactive : ∀ place ∈ places, ∀ slot, store.slot? place = some slot → slot.registry.isSome) :
    places.foldl attach store = store := by
  induction places with
  | nil => rfl
  | cons place rest induction =>
      have kept : store.attach place = store := by
        apply attach_of_not_plain
        intro value found
        have attached := reactive place (List.mem_cons_self ..) _ found
        cases attached
      rw [List.foldl_cons, kept]
      exact induction (fun other member => reactive other (List.mem_cons_of_mem _ member))

/-- The slots of one container are made reactive. -/
def attachAll (store : Store) (container : Container) : Store :=
  (store.places container).foldl attach store

/-- The calls for some containers, one after the other: from a store and the containers
entered so far to those when the last call has come back. Nothing bounds the depth of the
calls; they come back if they have a derivation. -/
inductive Descends :
    Store → List Container → List Container → Store → List Container → Prop
  | done {store : Store} {entered : List Container} : Descends store entered [] store entered
  | known {store later : Store} {container : Container}
      {rest entered entered' : List Container} (member : container ∈ entered)
      (after : Descends store entered rest later entered') :
      Descends store entered (container :: rest) later entered'
  | enter {store middle later : Store} {container : Container}
      {rest entered below entered' : List Container} (fresh : container ∉ entered)
      (inside : Descends (store.attachAll container) (entered ++ [container])
        (store.nested container) middle below)
      (after : Descends middle below rest later entered') :
      Descends store entered (container :: rest) later entered'

namespace Descends

variable {pending rest entered entered' : List Container}

theorem unique {other : Store} {others : List Container}
    (descends : store.Descends entered pending later entered')
    (descends' : store.Descends entered pending other others) :
    other = later ∧ others = entered' := by
  induction descends generalizing other others with
  | done =>
      cases descends' with
      | done => exact ⟨rfl, rfl⟩
  | known member _ induction =>
      cases descends' with
      | known _ after => exact induction after
      | enter fresh _ _ => exact absurd member fresh
  | enter fresh _ _ inner outer =>
      cases descends' with
      | known member _ => exact absurd member fresh
      | enter _ inside after =>
          obtain ⟨rfl, rfl⟩ := inner inside
          exact outer after

theorem split {first : List Container}
    (descends : store.Descends entered (first ++ rest) later entered') :
    ∃ middle below, store.Descends entered first middle below ∧
      middle.Descends below rest later entered' := by
  induction first generalizing store entered with
  | nil => exact ⟨store, entered, .done, descends⟩
  | cons container first induction =>
      cases descends with
      | known member after =>
          obtain ⟨middle, below, left, right⟩ := induction after
          exact ⟨middle, below, .known member left, right⟩
      | enter fresh inside after =>
          obtain ⟨middle, below, left, right⟩ := induction after
          exact ⟨middle, below, .enter fresh inside left, right⟩

end Descends

/-- The containers that are followed with enough rounds are entered by the calls in just
this order. The calls see a store that has gained registries; what it holds is the same. -/
theorem descends_follow {base : Store} (rounds : Nat) {pending found : List Container}
    (distinct : found.Nodup)
    (enough : pending.length + base.slotCount ≤
      rounds + total (found.map (fun container => (base.slots container).length))) :
    ∃ further, base.follow rounds pending found = found ++ further ∧
      ∀ store, base.SameContent store →
        store.Descends found pending ((further.flatMap base.places).foldl attach store)
          (found ++ further) := by
  induction rounds generalizing pending found with
  | zero =>
      have bound : _ ≤ base.slotCount := total_slots_le distinct
      obtain rfl : pending = [] := List.eq_nil_of_length_eq_zero (by omega)
      refine ⟨[], (List.append_nil found).symm, ?_⟩
      intro store _
      rw [List.append_nil]
      exact .done
  | succ rounds induction =>
      cases pending with
      | nil =>
          refine ⟨[], (List.append_nil found).symm, ?_⟩
          intro store _
          rw [List.append_nil]
          exact .done
      | cons container rest =>
          by_cases member : container ∈ found
          · have shorter : rest.length + base.slotCount ≤
                rounds + total (found.map (fun container => (base.slots container).length)) := by
              simp only [List.length_cons] at enough
              omega
            obtain ⟨further, followed, descends⟩ := induction distinct shorter
            refine ⟨further, ?_, fun store same => .known member (descends store same)⟩
            rw [follow, if_pos member, followed]
          · obtain ⟨distinct', room⟩ := room_of_fresh distinct member enough
            obtain ⟨further, followed, descends⟩ := induction distinct' room
            refine ⟨container :: further, ?_, ?_⟩
            · rw [follow, if_neg member, followed, List.append_assoc, List.singleton_append]
            · intro store same
              have attached : base.SameContent (store.attachAll container) :=
                same.trans (sameContent_foldl_attach store _)
              obtain ⟨middle, below, inside, after⟩ := (descends _ attached).split
              rw [List.flatMap_cons, List.foldl_append, ← same.places container]
              rw [← same.nested container] at inside
              simp only [List.append_assoc, List.singleton_append] at after
              exact .enter member inside after

theorem descends_instrumentFrom (store : Store) (starts : List Container) :
    store.Descends [] starts (store.instrumentFrom starts) (store.reachable starts) := by
  have enough : starts.length + store.slotCount ≤ store.slotCount + starts.length + 1 + 0 := by
    omega
  obtain ⟨further, followed, descends⟩ :=
    descends_follow (store.slotCount + starts.length + 1) List.nodup_nil enough
  rw [List.nil_append] at followed
  have entered : store.reachable starts = further := followed
  have derivation := descends store (SameContent.refl store)
  rw [List.nil_append, ← entered] at derivation
  exact derivation

/-- What holds of the containers to start from, and of what a container holds of which it
holds, holds of all that are followed. -/
theorem of_mem_follow (among : Container → Prop)
    (closed : ∀ outer, among outer → ∀ inner ∈ store.nested outer, among inner)
    (rounds : Nat) {pending found : List Container}
    (waiting : ∀ container ∈ pending, among container)
    (known : ∀ container ∈ found, among container) :
    ∀ container ∈ store.follow rounds pending found, among container := by
  induction rounds generalizing pending found with
  | zero => exact known
  | succ rounds induction =>
      cases pending with
      | nil => exact known
      | cons first rest =>
          have later : ∀ container ∈ rest, among container :=
            fun container member => waiting container (List.mem_cons_of_mem _ member)
          have here : among first := waiting first (List.mem_cons_self ..)
          rw [follow]
          split
          · exact induction later known
          · apply induction
            · intro container member
              rcases List.mem_append.mp member with inside | behind
              · exact closed first here container inside
              · exact later container behind
            · intro container member
              rcases List.mem_append.mp member with before | last
              · exact known container before
              · exact List.mem_singleton.mp last ▸ here

theorem mem_reachable_iff {root container : Container} :
    container ∈ store.reachable [root] ↔ store.Reaches root container := by
  constructor
  · apply of_mem_follow (store.Reaches root)
    · intro outer path inner holds
      exact path.tail holds
    · intro first member
      rw [List.mem_singleton.mp member]
      exact .refl
    · exact fun _ => nofun
  · exact mem_reachable (List.mem_singleton_self root)

theorem container_of_mem_places {container : Container} {place : Place}
    (member : place ∈ store.places container) : place.container = container := by
  cases container with
  | record record =>
      obtain ⟨key, -, rfl⟩ := List.mem_map.mp member
      rfl
  | list list =>
      obtain ⟨index, -, rfl⟩ := List.mem_map.mp member
      rfl

theorem reaches_of_mem_places {root : Container} {place : Place}
    (member : place ∈ (store.reachable [root]).flatMap store.places) :
    store.Reaches root place.container := by
  obtain ⟨container, followed, inside⟩ := List.mem_flatMap.mp member
  rw [container_of_mem_places inside]
  exact mem_reachable_iff.mp followed

theorem isSome_registryAt_instrumentFrom {root : Container} {place : Place} :
    ((store.instrumentFrom [root]).registryAt place).isSome ↔
      (store.registryAt place).isSome ∨
        (store.slot? place).isSome ∧ store.Reaches root place.container := by
  have instruments := instruments_instrumentFrom store [root]
  constructor
  · intro attached
    by_cases member : place ∈ (store.reachable [root]).flatMap store.places
    · obtain ⟨registry, attached⟩ := Option.isSome_iff_exists.mp attached
      have there := isSome_slot?_of_registryAt attached
      rw [instruments.presence] at there
      exact .inr ⟨there, reaches_of_mem_places member⟩
    · left
      rw [← registryAt_foldl_attach_of_not_mem member]
      exact attached
  · rintro (attached | ⟨there, path⟩)
    · obtain ⟨registry, attached⟩ := Option.isSome_iff_exists.mp attached
      rw [instruments.kept place registry attached]
      rfl
    · rw [← instruments.presence] at there
      obtain ⟨slot, found⟩ := Option.isSome_iff_exists.mp there
      have reactive := reactive_instrumentFrom (List.mem_singleton_self root) path place slot rfl found
      simpa only [registryAt, found, Option.bind_some] using reactive

theorem instrumentFrom_again (store : Store) (root : Container) :
    (store.instrumentFrom [root]).instrumentFrom [root] = store.instrumentFrom [root] := by
  apply foldl_attach_of_reactive
  intro place member slot found
  have path := reaches_of_mem_places member
  rw [(instruments_instrumentFrom store [root]).reaches] at path
  exact reactive_instrumentFrom (List.mem_singleton_self root) path place slot rfl found

/-- Registries from before stay with their slots and keep their subscribers, those added are
empty, and the content is the same: the later store differs from the earlier one in that
the plain slots of the containers reached from the root have become reactive. -/
structure Covers (store : Store) (root : Container) (later : Store) : Prop where
  reactive : ∀ place, (later.registryAt place).isSome ↔
    (store.registryAt place).isSome ∨
      (store.slot? place).isSome ∧ store.Reaches root place.container
  kept : ∀ place registry, store.registryAt place = some registry →
    later.registryAt place = some registry
  subscribers : ∀ registry, later.subscribers registry = store.subscribers registry
  added : ∀ place registry, store.registryAt place = none →
    later.registryAt place = some registry →
    store.registries.size ≤ registry.index ∧ registry.index < later.registries.size ∧
      later.subscribers registry = []
  apart : ∀ place other registry, store.registryAt place = none →
    later.registryAt place = some registry → later.registryAt other = some registry →
    other = place ∨ store.registryAt other = some registry
  records : later.records.size = store.records.size
  lists : later.lists.size = store.lists.size
  named : ∀ record, later.named record = store.named record
  elements : ∀ list, later.elements list = store.elements list

theorem covers_instrumentFrom (store : Store) (root : Container) :
    store.Covers root (store.instrumentFrom [root]) := by
  have instruments := instruments_instrumentFrom store [root]
  have allots : store.Allots (store.instrumentFrom [root]) := allots_foldl_attach store _
  have content : store.SameContent (store.instrumentFrom [root]) :=
    sameContent_foldl_attach store _
  refine ⟨fun _ => isSome_registryAt_instrumentFrom, instruments.kept, instruments.subscribers,
    ?_, allots.apart, instruments.records, instruments.lists, content.named, content.elements⟩
  intro place registry plain attached
  obtain ⟨low, high⟩ := allots.added place registry plain attached
  have outside : store.registries[registry.index]? = none := Array.getElem?_eq_none low
  refine ⟨low, high, ?_⟩
  rw [instruments.subscribers, subscribers, outside]
  rfl

/-- Whatever the data, with containers shared or inside themselves, instrumenting a record
comes back: the calls of the descent have one outcome, the instrumented store. Exactly the
slots that are reached have become reactive, nothing else has changed, and instrumenting the
record once more changes nothing. -/
theorem instrument_exact (store : Store) (record : RecordId) :
    (∀ later entered, store.Descends [] [.record record] later entered ↔
      later = store.instrument record ∧ entered = store.reachable [.record record]) ∧
    store.Covers (.record record) (store.instrument record) ∧
    (store.instrument record).instrument record = store.instrument record := by
  have derivation := descends_instrumentFrom store [.record record]
  refine ⟨?_, covers_instrumentFrom store _, instrumentFrom_again store _⟩
  intro later entered
  constructor
  · intro descends
    exact derivation.unique descends
  · rintro ⟨rfl, rfl⟩
    exact derivation

end Store

end ReactiveView
