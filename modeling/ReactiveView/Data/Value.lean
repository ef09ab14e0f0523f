import ReactiveView.Number.Notation
import ReactiveView.Number.Reading

/-!
# Values

A value is a scalar or a shared container. Containers are known by identity:
two values are the same record or list only if they are the same container.
-/

namespace ReactiveView

set_option autoImplicit false

structure RecordId where
  index : Nat
  deriving DecidableEq

structure ListId where
  index : Nat
  deriving DecidableEq

inductive Value where
  | null
  | bool (value : Bool)
  | number (value : Float)
  | text (value : String)
  | record (record : RecordId)
  | list (list : ListId)
  deriving DecidableEq

namespace Value

instance : Inhabited Value := ⟨.null⟩

def typeName : Value → String
  | null => "null"
  | bool _ => "boolean"
  | number _ => "number"
  | text _ => "text"
  | record _ => "object"
  | list _ => "list"

def isTruthy : Value → Bool
  | null => false
  | bool value => value
  | number value => value != 0 && !value.isNaN
  | text value => value ≠ ""
  | record _ => true
  | list _ => true

/-- The numeric reading of a value. Containers have none, text only if it spells
a number. -/
def number? : Value → Option Float
  | null => some 0
  | bool value => some (if value then 1 else 0)
  | number value => some value
  | text value => Number.read value
  | record _ => none
  | list _ => none

/-- Equality without coercion; containers are compared by identity. -/
def strictEqual : Value → Value → Bool
  | null, null => true
  | bool left, bool right => left = right
  | number left, number right => left == right
  | text left, text right => left = right
  | record left, record right => left = right
  | list left, list right => left = right
  | _, _ => false

/-- Equality that compares a number, truth value or numeric text with another
one by their numeric readings. Null equals only itself. -/
def looseEqual (left right : Value) : Bool :=
  match left, right with
  | null, null => true
  | null, _ | _, null => false
  | record _, _ | list _, _ | _, record _ | _, list _ => left.strictEqual right
  | text left, text right => left = right
  | _, _ =>
      match left.number?, right.number? with
      | some left, some right => left == right
      | _, _ => false

def ordering (left right : Float) : Option Ordering :=
  if left < right then some .lt
  else if left == right then some .eq
  else if right < left then some .gt
  else none

end Value

end ReactiveView
