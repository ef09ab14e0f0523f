import ReactiveView.Data.Store
import ReactiveView.Text.Quoted

/-!
# Values as text

The text of a value, as templates and concatenation use it, and its form for
inspection. Both follow the data through containers. All of a rendering shares
one set of the containers that it is inside of: a container enters it, and leaves
it when its content has been rendered. A container that is in the set already is
inside itself and is cut; one that is merely shared is rendered at each place. No
more containers can be in the set than there are, which bounds the depth.
-/

namespace ReactiveView

set_option autoImplicit false

/-- A rendering inside the containers of a set. There is none where the depth does
not suffice. -/
abbrev Rendering := StateT (List Container) Option

namespace Rendering

def enter (container : Container) : Rendering Bool := fun ancestors =>
  if container ∈ ancestors then some (false, ancestors) else some (true, container :: ancestors)

def leave (container : Container) : Rendering Unit := modify (·.filter (· ≠ container))

def within (container : Container) (mark : String) (content : Rendering String) :
    Rendering String := do
  if ← enter container then
    let text ← content
    leave container
    return text
  else
    return mark

end Rendering

namespace Store

/-- The text of a value. Null elements are empty, and a list inside itself is empty. -/
def textWithin (store : Store) : Nat → Value → Rendering String
  | _, .null => pure "null"
  | _, .bool true => pure "true"
  | _, .bool false => pure "false"
  | _, .number value => pure (Number.text value)
  | _, .text value => pure value
  | _, .record _ => pure "[object Object]"
  | 0, .list _ => failure
  | depth + 1, .list list =>
      Rendering.within (.list list) "" do
        let texts ← (store.items list).mapM (fun slot =>
          if slot.value = .null then pure "" else store.textWithin depth slot.value)
        return String.intercalate "," texts

def containerCount (store : Store) : Nat := store.records.size + store.lists.size

def text (store : Store) (value : Value) : String :=
  ((store.textWithin (store.containerCount + 1) value).run' []).getD ""

def enclosed (opening closing : String) (items : List String) : String :=
  opening ++ String.intercalate ", " items ++ closing

def inspectedWithin (store : Store) : Nat → Value → Rendering String
  | _, .null => pure "Null"
  | _, .bool true => pure "Bool(true)"
  | _, .bool false => pure "Bool(false)"
  | _, .number value => pure ("Number(" ++ Number.text value ++ ")")
  | _, .text value => pure ("Text(" ++ Text.quoted value ++ ")")
  | 0, .record _ => failure
  | 0, .list _ => failure
  | depth + 1, .record record =>
      Rendering.within (.record record) "[Circular]" do
        let fields ← (store.fields record).entries.mapM (fun field => do
          let text ← store.inspectedWithin depth field.2.value
          return Text.quoted field.1 ++ ": " ++ text)
        return enclosed "\x7b" "\x7d" fields
  | depth + 1, .list list =>
      Rendering.within (.list list) "[Circular]" do
        let items ← (store.items list).mapM (fun slot => store.inspectedWithin depth slot.value)
        return enclosed "[" "]" items

def inspected (store : Store) (value : Value) : String :=
  ((store.inspectedWithin (store.containerCount + 1) value).run' []).getD ""

end Store

end ReactiveView
