import ReactiveView.Document.Content
import ReactiveView.Text.Blank
import ReactiveView.Text.Quoted

/-!
# Finding elements

Elements are found by id, by class or by tag, the first in document order from
the body on.
-/

namespace ReactiveView

set_option autoImplicit false

inductive Selector where
  | id (value : String)
  | className (value : String)
  | tag (name : String)
  deriving DecidableEq

namespace Selector

/-- A selector is trimmed; a hash looks for an id, a dot for a class. -/
def parse (source : String) : Selector :=
  match Text.trim source.toList with
  | '#' :: rest => .id (String.ofList rest)
  | '.' :: rest => .className (String.ofList rest)
  | characters => .tag (String.ofList characters)

def lowerCase (text : String) : String := String.ofList (text.toList.map Char.toLower)

/-- The test for an element that the selector looks for. Tags are compared
without regard to the case of ASCII letters. -/
def admits (selector : Selector) (node : Node) : Bool :=
  match node.kind with
  | .element ownTag =>
      match selector with
      | id value => node.attributes.find? "id" = some value
      | className value =>
          match node.attributes.find? "class" with
          | some names => (Text.words names.toList).contains value.toList
          | none => false
      | tag name => lowerCase ownTag = lowerCase name
  | _ => false

end Selector

namespace Document

variable {listener : Type}

/-- A node and all below it, in document order. -/
def descendantsWithin (document : Document listener) : Nat → NodeId → List NodeId
  | 0, _ => []
  | depth + 1, id =>
      id :: (document.children id).flatMap (document.descendantsWithin depth)

def descendants (document : Document listener) (id : NodeId) : List NodeId :=
  document.descendantsWithin (document.nodes.size + 1) id

def query (document : Document listener) (selector : String) : Option NodeId :=
  (document.descendants body).find? (fun id =>
    (Selector.parse selector).admits (document.node id))

def inspected (document : Document listener) : String :=
  "MemoryDom \x7b nodes: " ++ toString document.nodes.size ++ ", body: " ++
    Text.quoted (document.markup body) ++ " \x7d"

def element (tag : String) : NodeKind := .element (Selector.lowerCase tag)

end Document

end ReactiveView
