import ReactiveView.Data.Rendering

/-!
# Documents of data

Trees of plain data, as they come from outside and go there. The fields of an
object are sorted by name. Reading one builds fresh records and lists; writing
a value unfolds its containers and fails where one is inside itself. All of a
writing shares one set of the containers that it is inside of, as a rendering does.
-/

namespace ReactiveView

set_option autoImplicit false

/-- A tree of plain data. Whole numbers from outside may be larger than
floating-point numbers hold. -/
inductive Json where
  | null
  | bool (value : Bool)
  | whole (value : Int)
  | number (value : Float)
  | text (value : String)
  | array (items : List Json)
  | object (fields : List (String × Json))

namespace Json

instance : Inhabited Json := ⟨.null⟩

def insertField (name : String) (value : Json) : List (String × Json) → List (String × Json)
  | [] => [(name, value)]
  | (other, old) :: rest =>
      if name < other then (name, value) :: (other, old) :: rest
      else if name = other then (name, value) :: rest
      else (other, old) :: insertField name value rest

def ofFields (fields : List (String × Json)) : Json :=
  .object (fields.foldl (fun sorted field => insertField field.1 field.2 sorted) [])

end Json

namespace Store

/-- Builds the value of a tree: objects become records, arrays become lists,
and the inner ones are built first. -/
def ingest (store : Store) : Json → Value × Store
  | .null => (.null, store)
  | .bool value => (.bool value, store)
  | .whole value => (.number (Float.ofInt value), store)
  | .number value => (.number value, store)
  | .text value => (.text value, store)
  | .array items =>
      let (values, store) := ingestItems store items
      let (list, store) := store.newList values
      (.list list, store)
  | .object fields =>
      let (values, store) := ingestFields store fields
      let (record, store) := store.newRecord values
      (.record record, store)
where
  ingestItems (store : Store) : List Json → List Value × Store
    | [] => ([], store)
    | item :: rest =>
        let (value, store) := store.ingest item
        let (values, store) := ingestItems store rest
        (value :: values, store)
  ingestFields (store : Store) : List (String × Json) → List (String × Value) × Store
    | [] => ([], store)
    | (name, item) :: rest =>
        let (value, store) := store.ingest item
        let (values, store) := ingestFields store rest
        ((name, value) :: values, store)

end Store

inductive JsonFault where
  | cyclic
  deriving DecidableEq

namespace JsonFault

def message : JsonFault → String
  | cyclic => "cyclic data cannot be serialized"

end JsonFault

/-- The writing of a tree inside the containers of a set. A fault ends it at once and
leaves the set as it is then. -/
abbrev Writing := ExceptT JsonFault Rendering

namespace Writing

def within {α : Type} (container : Container) (content : Writing α) : Writing α := do
  if ← Rendering.enter container then
    let result ← content
    Rendering.leave container
    return result
  else
    throw .cyclic

end Writing

namespace Store

def jsonWithin (store : Store) : Nat → Value → Writing Json
  | _, .null => pure .null
  | _, .bool value => pure (.bool value)
  | _, .number value => pure (if value.isFinite then .number value else .null)
  | _, .text value => pure (.text value)
  | 0, .record _ => ExceptT.lift failure
  | 0, .list _ => ExceptT.lift failure
  | depth + 1, .record record =>
      Writing.within (.record record) do
        let fields ← (store.fields record).entries.mapM (fun field => do
          let json ← store.jsonWithin depth field.2.value
          return (field.1, json))
        return Json.ofFields fields
  | depth + 1, .list list =>
      Writing.within (.list list) do
        let items ← (store.items list).mapM (fun slot => store.jsonWithin depth slot.value)
        return Json.array items

def serialized (store : Store) (value : Value) : Except JsonFault Json :=
  ((store.jsonWithin (store.containerCount + 1) value).run.run' []).getD (.error .cyclic)

/-- The tree that a value unfolds to; data inside itself gives null. -/
def toJson (store : Store) (value : Value) : Json :=
  match store.serialized value with
  | .ok json => json
  | .error _ => .null

def jsonFault (store : Store) (value : Value) : Option String :=
  match store.serialized value with
  | .ok _ => none
  | .error fault => some fault.message

end Store

end ReactiveView
