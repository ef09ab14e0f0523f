/-!
# Errors

Why an evaluation, a write, a method call or a mount fails. Each cause has one
message.
-/

namespace ReactiveView

set_option autoImplicit false

/-- A value of the wrong kind for what is done with it. -/
inductive TypeFault where
  | callOfExpression (callee : String)
  | callOfField (name : String)
  /-- A method or built-in function stands where a value is wanted. -/
  | functionAsValue (name : String)
  | propertyOfNull (name : String)
  | notNumeric (operation typeName text : String)
  /-- A path leads through something that is no record. -/
  | assignmentThrough (path : List String) (found : String)
  | rootData (typeName : String)
  deriving DecidableEq

inductive Error where
  | unknownIdentifier (name : String)
  | unknownMethod (name : String)
  | parse (source : String)
  | type (fault : TypeFault)
  | indexOutOfRange (index length : Nat)
  /-- An evaluation that tracks its reads starts while another one is under way. -/
  | nestedEvaluation
  | mountNotFound (selector : String)
  | method (name message : String)
  deriving DecidableEq

namespace TypeFault

def message : TypeFault → String
  | callOfExpression callee => "cannot call " ++ callee
  | callOfField name => "cannot call '" ++ name ++ "', it is not a method"
  | functionAsValue name => "cannot use as a value the function '" ++ name ++ "'"
  | propertyOfNull name => "cannot read property '" ++ name ++ "' of null"
  | notNumeric operation typeName text =>
      "cannot apply '" ++ operation ++ "' to " ++ typeName ++ " `" ++ text ++ "`"
  | assignmentThrough path found =>
      "cannot assign '" ++ String.intercalate "." path ++ "' through " ++ found
  | rootData typeName => "cannot use as root data " ++ typeName

end TypeFault

namespace Error

def message : Error → String
  | unknownIdentifier name => "'" ++ name ++ "' is not defined"
  | unknownMethod name => "method '" ++ name ++ "' is not defined"
  | parse source => "failed to parse expression `" ++ source ++ "`"
  | type fault => fault.message
  | indexOutOfRange index length =>
      "index " ++ toString index ++ " is out of range for a list of length " ++ toString length
  | nestedEvaluation => "an evaluation started while another one was still running"
  | mountNotFound selector => "mount point '" ++ selector ++ "' not found"
  | method name message => "method '" ++ name ++ "' failed: " ++ message

end Error

end ReactiveView
