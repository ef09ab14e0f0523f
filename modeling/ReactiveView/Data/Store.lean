import ReactiveView.Data.Value
import ReactiveView.Dictionary

/-!
# The data store

All records and lists, and the registries of their reactive slots. A slot holds
a value; once it has a registry it is reactive, and the registry lists the
subscribers that depend on it in the order in which they joined.
-/

namespace ReactiveView

set_option autoImplicit false

structure RegistryId where
  index : Nat
  deriving DecidableEq

/-- The identity of a subscriber, the same in every registry. -/
structure SubscriberId where
  index : Nat
  deriving DecidableEq

structure Slot where
  value : Value
  registry : Option RegistryId
  deriving DecidableEq

namespace Slot

def plain (value : Value) : Slot := ⟨value, none⟩

end Slot

inductive Place where
  | field (record : RecordId) (key : String)
  | item (list : ListId) (index : Nat)
  deriving DecidableEq

inductive Container where
  | record (record : RecordId)
  | list (list : ListId)
  deriving DecidableEq

namespace Value

def container? : Value → Option Container
  | record id => some (.record id)
  | list id => some (.list id)
  | _ => none

end Value

structure Store where
  records : Array (Dictionary Slot)
  lists : Array (List Slot)
  registries : Array (List SubscriberId)

namespace Store

def empty : Store := ⟨#[], #[], #[]⟩

def fields (store : Store) (record : RecordId) : Dictionary Slot :=
  store.records[record.index]?.getD .empty

def items (store : Store) (list : ListId) : List Slot :=
  store.lists[list.index]?.getD []

def slot? (store : Store) : Place → Option Slot
  | .field record key => (store.fields record).find? key
  | .item list index => (store.items list)[index]?

def peek (store : Store) (place : Place) : Option Value := (store.slot? place).map Slot.value

/-- Writes a slot. A field that is not there yet is added at the end. -/
def put (store : Store) (place : Place) (slot : Slot) : Store :=
  match place with
  | .field record key =>
      { store with records := store.records.modify record.index (·.insert key slot) }
  | .item list index =>
      { store with lists := store.lists.modify list.index (·.set index slot) }

theorem slot?_put {store : Store} {place : Place} (there : (store.slot? place).isSome)
    (slot : Slot) (other : Place) :
    (store.put place slot).slot? other =
      if other = place then some slot else store.slot? other := by
  cases place with
  | field record key =>
      cases other with
      | item list index => simp [put, slot?, items]
      | field record' key' =>
          simp only [slot?, put, fields, Array.getElem?_modify] at there ⊢
          by_cases same : record.index = record'.index
          · cases found : store.records[record'.index]? with
            | none => simp [same, found, Dictionary.find?, Dictionary.empty] at there
            | some table =>
                have equal : record' = record := by cases record; cases record'; simp_all
                simp [same, equal, Dictionary.find?_insert]
          · have differs : record' ≠ record := fun equal => same (equal ▸ rfl)
            simp [same, differs]
  | item list index =>
      cases other with
      | field record key => simp [put, slot?, fields]
      | item list' index' =>
          simp only [slot?, put, items, Array.getElem?_modify] at there ⊢
          by_cases same : list.index = list'.index
          · have equal : list' = list := by cases list; cases list'; simp_all
            subst equal
            cases found : store.lists[list'.index]? with
            | none => simp [found] at there
            | some slots =>
                simp only [found, Option.getD_some, Option.isSome_iff_exists] at there
                obtain ⟨old, present⟩ := there
                have bound : index < slots.length := (List.getElem?_eq_some_iff.mp present).1
                by_cases equal : index = index'
                · subst equal
                  simp [bound]
                · have differs : ¬ index' = index := fun h => equal h.symm
                  simp [equal, differs]
          · have differs : list' ≠ list := fun equal => same (equal ▸ rfl)
            simp [same, differs]

/-- Adds a record; of two fields with one name, the first gives the place and
the last the value. -/
def newRecord (store : Store) (fields : List (String × Value)) : RecordId × Store :=
  (⟨store.records.size⟩,
    { store with
      records := store.records.push (Dictionary.ofList
        (fields.map (fun field => (field.1, Slot.plain field.2)))) })

def newList (store : Store) (items : List Value) : ListId × Store :=
  (⟨store.lists.size⟩, { store with lists := store.lists.push (items.map Slot.plain) })

def push (store : Store) (list : ListId) (value : Value) : Store :=
  { store with lists := store.lists.modify list.index (· ++ [Slot.plain value]) }

def newRegistry (store : Store) : RegistryId × Store :=
  (⟨store.registries.size⟩, { store with registries := store.registries.push [] })

def subscribers (store : Store) (registry : RegistryId) : List SubscriberId :=
  store.registries[registry.index]?.getD []

theorem subscribers_newRegistry (store : Store) (registry : RegistryId) :
    store.newRegistry.2.subscribers registry = store.subscribers registry := by
  simp only [newRegistry, subscribers, Array.getElem?_push]
  split
  · next last => simp [last]
  · rfl

/-- Lets a subscriber join at the end, unless it is there already. -/
def register (store : Store) (registry : RegistryId) (subscriber : SubscriberId) : Store :=
  if subscriber ∈ store.subscribers registry then store
  else { store with registries := store.registries.modify registry.index (· ++ [subscriber]) }

theorem subscribers_register {store : Store} {registry : RegistryId}
    (there : registry.index < store.registries.size) (subscriber : SubscriberId)
    (other : RegistryId) :
    (store.register registry subscriber).subscribers other =
      if other = registry ∧ subscriber ∉ store.subscribers registry then
        store.subscribers registry ++ [subscriber]
      else store.subscribers other := by
  unfold register
  split
  · next joined => simp [joined]
  · next apart =>
      simp only [subscribers, Array.getElem?_modify]
      by_cases same : registry.index = other.index
      · have equal : other = registry := by cases registry; cases other; simp_all
        subst equal
        simp_all [subscribers]
      · have differs : other ≠ registry := fun equal => same (equal ▸ rfl)
        simp [same, differs]

def unregister (store : Store) (registry : RegistryId) (subscriber : SubscriberId) : Store :=
  { store with
    registries := store.registries.modify registry.index (·.filter (· ≠ subscriber)) }

theorem subscribers_unregister (store : Store) (registry : RegistryId)
    (subscriber : SubscriberId) (other : RegistryId) :
    (store.unregister registry subscriber).subscribers other =
      if other = registry then (store.subscribers registry).filter (· ≠ subscriber)
      else store.subscribers other := by
  simp only [unregister, subscribers, Array.getElem?_modify]
  by_cases same : registry.index = other.index
  · have equal : other = registry := by cases registry; cases other; simp_all
    subst equal
    cases store.registries[other.index]? <;> simp
  · have differs : other ≠ registry := fun equal => same (equal ▸ rfl)
    simp [same, differs]

def unregisterAll (store : Store) (registries : List RegistryId) (subscriber : SubscriberId) :
    Store :=
  registries.foldl (fun store registry => store.unregister registry subscriber) store

/-- Makes the slot at a place reactive. A slot that has a registry keeps it. -/
def attach (store : Store) (place : Place) : Store :=
  match store.slot? place with
  | some ⟨value, none⟩ =>
      let (registry, store) := store.newRegistry
      store.put place ⟨value, some registry⟩
  | _ => store

def places (store : Store) : Container → List Place
  | .record record => (store.fields record).keys.map (Place.field record)
  | .list list => (List.range (store.items list).length).map (Place.item list)

def slots (store : Store) : Container → List Slot
  | .record record => (store.fields record).entries.map Prod.snd
  | .list list => store.items list

def nested (store : Store) (container : Container) : List Container :=
  (store.slots container).filterMap (fun slot => slot.value.container?)

def total (counts : List Nat) : Nat := counts.foldr (· + ·) 0

def slotCount (store : Store) : Nat :=
  total (store.records.toList.map Dictionary.size) + total (store.lists.toList.map List.length)

/-- Follows what is pending until nothing new is found. -/
def follow (store : Store) : Nat → List Container → List Container → List Container
  | 0, _, found => found
  | _ + 1, [], found => found
  | rounds + 1, container :: pending, found =>
      if container ∈ found then store.follow rounds pending found
      else store.follow rounds (store.nested container ++ pending) (found ++ [container])

/-- The containers reachable from the given ones, these included. Each is
entered once and leaves at most as many pending as it has slots, which bounds
the rounds. -/
def reachable (store : Store) (starts : List Container) : List Container :=
  store.follow (store.slotCount + starts.length + 1) starts []

def instrumentFrom (store : Store) (starts : List Container) : Store :=
  ((store.reachable starts).flatMap store.places).foldl attach store

def instrument (store : Store) (record : RecordId) : Store :=
  store.instrumentFrom [.record record]

/-- Makes the content of a value reactive. Scalars are left alone. -/
def instrumentValue (store : Store) (value : Value) : Store :=
  store.instrumentFrom value.container?.toList

def instrumentField (store : Store) (record : RecordId) (key : String) : Store :=
  match store.peek (.field record key) with
  | some value => (store.attach (.field record key)).instrumentValue value
  | none => store

end Store

end ReactiveView
