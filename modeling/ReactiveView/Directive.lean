/-!
# Directives

Attributes that bind. The long forms start with `m-`, the short forms with one
mark; a colon separates the target.
-/

namespace ReactiveView

set_option autoImplicit false

/-- What an attribute asks for. The source is the attribute's value. -/
inductive Directive where
  | text (source : String)
  | bind (property : Option String) (source : String)
  | model (property : Option String) (source : String)
  | event (name source : String)
  deriving DecidableEq

namespace Directive

def target? (characters : List Char) : Option String :=
  if characters.isEmpty then none else some (String.ofList characters)

def splitTarget (characters : List Char) : List Char × Option String :=
  (characters.takeWhile (· ≠ ':'), target? ((characters.dropWhile (· ≠ ':')).drop 1))

def ofLongForm? (characters : List Char) (source : String) : Option Directive :=
  let (name, target) := splitTarget characters
  if name = "text".toList ∧ target = none then some (.text source)
  else if name = "bind".toList then some (.bind target source)
  else if name = "model".toList then some (.model target source)
  else none

def parse? (name source : String) : Option Directive :=
  match name.toList with
  | 'm' :: '-' :: rest => ofLongForm? rest source
  | ':' :: rest => some (.bind (target? rest) source)
  | '%' :: rest => some (.model (target? rest) source)
  | '@' :: rest => (target? rest).map (fun event => .event event source)
  | _ => none

/-- An attribute with this name is meant to be a directive of the long form. -/
def isLongForm (name : String) : Bool := "m-".toList.isPrefixOf name.toList

end Directive

end ReactiveView
