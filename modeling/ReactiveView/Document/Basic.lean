import ReactiveView.Data.Value
import ReactiveView.Dictionary
import ReactiveView.Document.NodeId

/-!
# Documents

A forest of nodes in one arena. A body element is there from the start; a new
node stays detached until it is appended somewhere. A released place is used
again before the arena grows, the last released place first.
-/

namespace ReactiveView

set_option autoImplicit false

inductive NodeKind where
  | element (tag : String)
  | text (content : String)
  | comment (content : String)
  deriving DecidableEq

namespace NodeKind

def isElement : NodeKind → Bool
  | element _ => true
  | _ => false

def isText : NodeKind → Bool
  | text _ => true
  | _ => false

def isComment : NodeKind → Bool
  | comment _ => true
  | _ => false

def tag? : NodeKind → Option String
  | element tag => some tag
  | _ => none

def withContent (content : String) : NodeKind → NodeKind
  | element tag => element tag
  | text _ => text content
  | comment _ => comment content

end NodeKind

structure Node where
  kind : NodeKind
  attributes : Dictionary String
  properties : Dictionary Value
  parent : Option NodeId
  children : List NodeId
  deriving DecidableEq

namespace Node

def fresh (kind : NodeKind) : Node := ⟨kind, .empty, .empty, none, []⟩

instance : Inhabited Node := ⟨fresh (.text "")⟩

end Node

structure Registration (listener : Type) where
  node : NodeId
  event : String
  listener : listener

structure Document (listener : Type) where
  nodes : Array Node
  /-- The released places, the last released one first. -/
  released : List NodeId
  /-- The listeners of all nodes, in the order in which they were added. -/
  listeners : List (Registration listener)

namespace Document

variable {listener : Type}

def initial : Document listener := ⟨#[.fresh (.element "body")], [], []⟩

def body : NodeId := ⟨0⟩

def node (document : Document listener) (id : NodeId) : Node :=
  document.nodes[id.index]?.getD default

def kind (document : Document listener) (id : NodeId) : NodeKind := (document.node id).kind

def children (document : Document listener) (id : NodeId) : List NodeId :=
  (document.node id).children

def change (document : Document listener) (id : NodeId) (f : Node → Node) :
    Document listener :=
  { document with nodes := document.nodes.modify id.index f }

theorem node_change (document : Document listener) (id : NodeId) (f : Node → Node)
    (other : NodeId) :
    (document.change id f).node other =
      if other = id ∧ id.index < document.nodes.size then f (document.node id)
      else document.node other := by
  simp only [change, node, Array.getElem?_modify]
  by_cases same : id.index = other.index
  · have equal : other = id := by cases id; cases other; simp_all
    subst equal
    by_cases bound : other.index < document.nodes.size <;> simp [bound]
  · have differs : other ≠ id := fun equal => same (equal ▸ rfl)
    simp [same, differs]

theorem size_change (document : Document listener) (id : NodeId) (f : Node → Node) :
    (document.change id f).nodes.size = document.nodes.size := by
  simp [change]

def nodeCount (document : Document listener) : Nat :=
  document.nodes.size - document.released.length

def create (document : Document listener) (kind : NodeKind) : NodeId × Document listener :=
  match document.released with
  | id :: released =>
      (id, { document.change id (fun _ => .fresh kind) with released := released })
  | [] => (⟨document.nodes.size⟩, { document with nodes := document.nodes.push (.fresh kind) })

theorem size_create (document : Document listener) (kind : NodeKind) :
    (document.create kind).2.nodes.size =
      if document.released = [] then document.nodes.size + 1 else document.nodes.size := by
  unfold create
  split <;> simp_all [change]

theorem node_create {document : Document listener}
    (inside : ∀ id ∈ document.released, id.index < document.nodes.size) (kind : NodeKind) :
    (document.create kind).2.node (document.create kind).1 = .fresh kind := by
  unfold create
  split
  · next id released same =>
      have bound := inside id (by simp [same])
      have changed := node_change document id (fun _ => .fresh kind) id
      simp only [bound, and_self, if_true] at changed
      exact changed
  · simp [node]

def detach (document : Document listener) (id : NodeId) : Document listener :=
  match (document.node id).parent with
  | none => document
  | some parent =>
      (document.change id (fun node => { node with parent := none })).change parent
        (fun node => { node with children := node.children.filter (· ≠ id) })

/-- Moves a node to the end of the children of another one. -/
def append (document : Document listener) (parent child : NodeId) : Document listener :=
  ((document.detach child).change child (fun node => { node with parent := some parent })).change
    parent (fun node => { node with children := node.children ++ [child] })

/-- Returns a detached node to the arena, with all below it and the listeners of
all of them; the nodes below go first. A node loses its children before they
are released, so the arena bounds the depth. -/
def releaseWithin : Nat → Document listener → NodeId → Document listener
  | 0, document, _ => document
  | depth + 1, document, id =>
      let below := (document.children id).foldl (releaseWithin depth)
        (document.change id (fun node => { node with children := [] }))
      { below with
        listeners := below.listeners.filter (fun entry => entry.node ≠ id)
        released := id :: below.released }

def release (document : Document listener) (id : NodeId) : Document listener :=
  releaseWithin (document.nodes.size + 1) document id

def setAttribute (document : Document listener) (id : NodeId) (name value : String) :
    Document listener :=
  document.change id (fun node => { node with attributes := node.attributes.insert name value })

def removeAttribute (document : Document listener) (id : NodeId) (name : String) :
    Document listener :=
  document.change id (fun node => { node with attributes := node.attributes.erase name })

def setProperty (document : Document listener) (id : NodeId) (name : String) (value : Value) :
    Document listener :=
  document.change id (fun node => { node with properties := node.properties.insert name value })

/-- A property, or else the attribute of the same name, or else null. -/
def property (document : Document listener) (id : NodeId) (name : String) : Value :=
  match (document.node id).properties.find? name with
  | some value => value
  | none =>
      match (document.node id).attributes.find? name with
      | some value => .text value
      | none => .null

def listen (document : Document listener) (id : NodeId) (event : String) (code : listener) :
    Document listener :=
  { document with listeners := document.listeners ++ [⟨id, event, code⟩] }

def listenersFor (document : Document listener) (id : NodeId) (event : String) :
    List listener :=
  (document.listeners.filter (fun entry => entry.node = id ∧ entry.event = event)).map
    Registration.listener

end Document

end ReactiveView
