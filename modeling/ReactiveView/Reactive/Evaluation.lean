import ReactiveView.Data.Rendering
import ReactiveView.Number.Remainder
import ReactiveView.Reactive.Engine
import ReactiveView.Text.Units

/-!
# Evaluation

The value of an expression in a context. Fields and elements are read through
their slots, so whatever an observed evaluation reads becomes a dependency of
the observer. Operands are evaluated from left to right.
-/

namespace ReactiveView

set_option autoImplicit false

namespace Literal

def value : Literal → Value
  | null => .null
  | bool value => .bool value
  | number value => .number value
  | text value => .text value

end Literal

inductive Builtin where
  | string
  | number
  | boolean
  deriving DecidableEq

namespace Builtin

def ofName? (name : String) : Option Builtin :=
  if name = "String" then some string
  else if name = "Number" then some number
  else if name = "Boolean" then some boolean
  else none

def apply (store : Store) : Builtin → Option Value → Value
  | string, argument => .text ((argument.map store.text).getD "")
  | number, none => .number 0
  | number, some argument => .number (argument.number?.getD (0.0 / 0.0))
  | boolean, argument => .bool (argument.any Value.isTruthy)

end Builtin

namespace Operation

/-- Values that turn a sum into a concatenation. -/
def isTextual : Value → Bool
  | .text _ | .record _ | .list _ => true
  | _ => false

def numeric (store : Store) (operation : String) (operand : Value) : Except Error Float :=
  match operand.number? with
  | some number => .ok number
  | none => .error (.type (.notNumeric operation operand.typeName (store.text operand)))

/-- An operation on the numeric readings of both operands, the left one read
first. -/
def arithmetic (store : Store) (operator : BinaryOperator) (compute : Float → Float → Float)
    (left right : Value) : Except Error Value :=
  match numeric store operator.symbol left with
  | .error error => .error error
  | .ok left =>
      match numeric store operator.symbol right with
      | .error error => .error error
      | .ok right => .ok (.number (compute left right))

/-- The order of two operands: texts by their characters, all else by numeric
readings. There is no order where one of them is not a number. -/
def compare (store : Store) (operator : BinaryOperator) (left right : Value) :
    Except Error (Option Ordering) :=
  match left, right with
  | .text left, .text right => .ok (some (Ord.compare left right))
  | left, right =>
      match numeric store operator.symbol left with
      | .error error => .error error
      | .ok left =>
          match numeric store operator.symbol right with
          | .error error => .error error
          | .ok right => .ok (Value.ordering left right)

def relation (store : Store) (operator : BinaryOperator) (accepted : List Ordering)
    (left right : Value) : Except Error Value :=
  (compare store operator left right).map (fun order =>
    .bool (order.any (fun order => accepted.contains order)))

def binary (store : Store) (operator : BinaryOperator) (left right : Value) :
    Except Error Value :=
  match operator with
  | .add =>
      if isTextual left || isTextual right then
        .ok (.text (store.text left ++ store.text right))
      else arithmetic store operator (· + ·) left right
  | .subtract => arithmetic store operator (· - ·) left right
  | .multiply => arithmetic store operator (· * ·) left right
  | .divide => arithmetic store operator (· / ·) left right
  | .remainder => arithmetic store operator Number.remainder left right
  | .less => relation store operator [.lt] left right
  | .lessOrEqual => relation store operator [.lt, .eq] left right
  | .greater => relation store operator [.gt] left right
  | .greaterOrEqual => relation store operator [.gt, .eq] left right
  | .equal => .ok (.bool (left.looseEqual right))
  | .notEqual => .ok (.bool (!left.looseEqual right))
  | .strictEqual => .ok (.bool (left.strictEqual right))
  | .strictNotEqual => .ok (.bool (!left.strictEqual right))

def unary (store : Store) (operator : UnaryOperator) (operand : Value) : Except Error Value :=
  match operator with
  | .not => .ok (.bool (!operand.isTruthy))
  | .negate => (numeric store "negate" operand).map (fun number => .number (-number))
  | .plus => (numeric store "convert to a number" operand).map Value.number

end Operation

/-- What an access leads to: a slot that is still to be read, or a value. -/
inductive Access where
  | slot (place : Place)
  | value (value : Value)

namespace Access

/-- The member of a value by name. A record has its fields, lists and texts have
a length, null has no members, and all else is null. -/
def member (store : Store) (target : Value) (name : String) : Except Error Access :=
  match target with
  | .record record => .ok (.slot (.field record name))
  | .list list =>
      .ok (.value (if name = "length" then .number (Float.ofNat (store.items list).length)
        else .null))
  | .text text =>
      .ok (.value (if name = "length" then
          .number (Float.ofNat (Text.units text.toList).length)
        else .null))
  | .null => .error (.type (.propertyOfNull name))
  | _ => .ok (.value .null)

/-- The position that a value stands for: its numeric reading, if that is a
whole number and not negative. -/
def position? (index : Value) : Option Nat := index.number?.bind Number.natural?

def unitAt (text : String) (position : Nat) : Value :=
  match (Text.units text.toList)[position]? with
  | some unit => .text (String.singleton (Text.ofUnit unit))
  | none => .null

/-- The element of a value by an index. Lists and texts are indexed by position,
all else by the text of the index. -/
def element (store : Store) (target index : Value) : Except Error Access :=
  match target with
  | .list list =>
      .ok (match position? index with
        | some position => .slot (.item list position)
        | none => .value .null)
  | .text text =>
      .ok (.value (match position? index with
        | some position => unitAt text position
        | none => .null))
  | target => member store target (store.text index)

end Access

namespace Engine

variable {κ σ : Type}

def readAccess : Access → Engine κ σ Value
  | .value value => pure value
  | .slot place => do
      let found ← transform (State.read place)
      pure (found.getD .null)

/-- The value of a name: a field of the root record. Methods and built-in
functions are no values. -/
def readName (context : Context κ) (name : String) : Engine κ σ Value := do
  match ← transform (State.read (.field context.data name)) with
  | some value => pure value
  | none =>
      if context.methods.contains name || (Builtin.ofName? name).isSome then
        fail (.type (.functionAsValue name))
      else fail (.unknownIdentifier name)

def callMethod (invoke : Invoke κ σ) (context : Context κ) (name : String)
    (arguments : List Value) : Engine κ σ Value :=
  match context.methods.find? name with
  | some body => invoke body (.called context arguments)
  | none => fail (.unknownMethod name)

/-- Calls a function by name. A field hides a method of its name, and a method
hides a built-in function. -/
def callName (invoke : Invoke κ σ) (context : Context κ) (name : String)
    (arguments : List Value) : Engine κ σ Value := do
  let store ← look State.store
  if ((store.fields context.data).contains name) then fail (.type (.callOfField name))
  else if context.methods.contains name then callMethod invoke context name arguments
  else
    match Builtin.ofName? name with
    | some builtin => pure (builtin.apply store arguments.head?)
    | none => fail (.unknownMethod name)

def evaluate (invoke : Invoke κ σ) (context : Context κ) : Expression → Engine κ σ Value
  | .literal literal => pure literal.value
  | .identifier name => readName context name
  | .member target name => do
      let target ← evaluate invoke context target
      let store ← look State.store
      let access ← ofExcept (Access.member store target name)
      readAccess access
  | .index target position => do
      let target ← evaluate invoke context target
      let index ← evaluate invoke context position
      let store ← look State.store
      let access ← ofExcept (Access.element store target index)
      readAccess access
  | .call (.identifier name) arguments => do
      let arguments ← evaluateAll arguments
      callName invoke context name arguments
  | .call callee _ => fail (.type (.callOfExpression callee.shown))
  | .unary operator operand => do
      let operand ← evaluate invoke context operand
      let store ← look State.store
      ofExcept (Operation.unary store operator operand)
  | .binary operator left right => do
      let left ← evaluate invoke context left
      let right ← evaluate invoke context right
      let store ← look State.store
      ofExcept (Operation.binary store operator left right)
  | .logical .and left right => do
      let left ← evaluate invoke context left
      if left.isTruthy then evaluate invoke context right else pure left
  | .logical .or left right => do
      let left ← evaluate invoke context left
      if left.isTruthy then pure left else evaluate invoke context right
  | .conditional condition consequent alternative => do
      let condition ← evaluate invoke context condition
      if condition.isTruthy then evaluate invoke context consequent
      else evaluate invoke context alternative
where
  evaluateAll : List Expression → Engine κ σ (List Value)
    | [] => pure []
    | first :: rest => do
        let value ← evaluate invoke context first
        let values ← evaluateAll rest
        pure (value :: values)

def evaluateParts (invoke : Invoke κ σ) (context : Context κ) :
    List Template.Part → Engine κ σ String
  | [] => pure ""
  | .text content :: rest => do
      let others ← evaluateParts invoke context rest
      pure (content ++ others)
  | .expression body :: rest => do
      let value ← evaluate invoke context body
      let store ← look State.store
      let others ← evaluateParts invoke context rest
      pure (store.text value ++ others)

def evaluateFormula (invoke : Invoke κ σ) (context : Context κ) : Formula → Engine κ σ Value
  | .expression body => evaluate invoke context body
  | .template body => do
      let text ← evaluateParts invoke context body.parts
      pure (.text text)

def evaluateUntracked (invoke : Invoke κ σ) (context : Context κ) (formula : Formula) :
    Engine κ σ Value :=
  untracked (evaluateFormula invoke context formula)

end Engine

end ReactiveView
