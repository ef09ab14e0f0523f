/-!
# Node identities

A node of a document is known by its place in the arena that holds all nodes.
-/

namespace ReactiveView

set_option autoImplicit false

structure NodeId where
  index : Nat
  deriving DecidableEq

namespace NodeId

def shown (node : NodeId) : String := "#" ++ toString node.index

def inspected (node : NodeId) : String := "NodeId(" ++ toString node.index ++ ")"

end NodeId

end ReactiveView
