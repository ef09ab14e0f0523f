import ReactiveView.Document.NodeId

/-!
# Warnings

What a template or a directive does when its source cannot be used as meant.
None of these stops the work.
-/

namespace ReactiveView

set_option autoImplicit false

inductive Warning where
  | segmentKept (body : String)
  | takenLiterally (source : String)
  | unknownDirective (name : String) (node : NodeId)
  | notAPath (source : String) (node : NodeId)
  | notAMethod (source event : String) (node : NodeId)
  deriving DecidableEq

namespace Warning

def message : Warning → String
  | segmentKept body =>
      "Keeping `\x7b\x7b" ++ body ++ "\x7d\x7d` as literal text: failed to parse expression `" ++
        body ++ "`"
  | takenLiterally source => "Rendering `" ++ source ++ "` literally, it does not parse:"
  | unknownDirective name node =>
      "Ignoring unknown directive '" ++ name ++ "' on " ++ node.inspected
  | notAPath source node =>
      "Model target `" ++ source ++ "` on " ++ node.inspected ++
        " is not a field path, binding one way"
  | notAMethod source event node =>
      "Handler `" ++ source ++ "` for '" ++ event ++ "' on " ++ node.inspected ++
        " does not name a method"

/-- The first line of the message: what stands before the first line feed. A
carriage return there belongs to the line. -/
def headline (warning : Warning) : String :=
  String.ofList (warning.message.toList.takeWhile (· ≠ '\n'))

end Warning

end ReactiveView
