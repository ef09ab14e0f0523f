import ReactiveView.Document.Basic

/-!
# Text and markup of a document

The text of a subtree, its markup, and the replacement of a text. No path of a
forest is longer than the arena, which bounds the depth.
-/

namespace ReactiveView.Document

set_option autoImplicit false

variable {listener : Type}

/-- The text of a node: of an element, the text of its children without
comments. -/
def textContentWithin (document : Document listener) : Nat → NodeId → String
  | 0, _ => ""
  | depth + 1, id =>
      match document.kind id with
      | .text content => content
      | .comment content => content
      | .element _ =>
          String.join (((document.children id).filter
            (fun child => !(document.kind child).isComment)).map
              (document.textContentWithin depth))

def textContent (document : Document listener) (id : NodeId) : String :=
  document.textContentWithin (document.nodes.size + 1) id

/-- Gives a node a text. In an element, an only child that is a text node gets
it; any other children are released and replaced by a new text node. -/
def setTextContent (document : Document listener) (id : NodeId) (text : String) :
    Document listener :=
  let write (document : Document listener) (target : NodeId) :=
    document.change target (fun node => { node with kind := node.kind.withContent text })
  if (document.kind id).isElement then
    match document.children id with
    | [only] =>
        if (document.kind only).isText then write document only else replace [only]
    | children => replace children
  else write document id
where
  replace (children : List NodeId) : Document listener :=
    let cleared := children.foldl (fun document child => (document.detach child).release child)
      document
    let (child, created) := cleared.create (.text text)
    created.append id child

def attributeMarkup (entry : String × String) : String :=
  " " ++ entry.1 ++ "=\"" ++ entry.2 ++ "\""

/-- The markup of a subtree. Nothing is escaped. -/
def markupWithin (document : Document listener) : Nat → NodeId → String
  | 0, _ => ""
  | depth + 1, id =>
      match document.kind id with
      | .text content => content
      | .comment content => "<!--" ++ content ++ "-->"
      | .element tag =>
          "<" ++ tag ++
            String.join ((document.node id).attributes.entries.map attributeMarkup) ++ ">" ++
            String.join ((document.children id).map (document.markupWithin depth)) ++
            "</" ++ tag ++ ">"

def markup (document : Document listener) (id : NodeId) : String :=
  document.markupWithin (document.nodes.size + 1) id

end ReactiveView.Document
