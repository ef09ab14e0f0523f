import ReactiveView.Expression.Basic
import ReactiveView.Number.Notation

/-!
# From expressions to text

An expression is written with the brackets that its tree needs and no others,
with spaces around infix operators. Texts stand between single quotes.
-/

namespace ReactiveView

set_option autoImplicit false

namespace Literal

def quotedCharacter (c : Char) : List Char :=
  if c = '\'' then ['\\', '\'']
  else if c = '\\' then ['\\', '\\']
  else if c = '\n' then ['\\', 'n']
  else [c]

def written : Literal → List Char
  | null => "null".toList
  | bool true => "true".toList
  | bool false => "false".toList
  | number value => (Number.text value).toList
  | text value => '\'' :: value.toList.flatMap quotedCharacter ++ ['\'']

end Literal

namespace Expression

/-- Puts an operand in round brackets if it is weaker than its place demands. -/
def bracketed (demanded strength : Nat) (operand : List Char) : List Char :=
  if strength < demanded then '(' :: operand ++ [')'] else operand

def written : Expression → List Char
  | literal value => value.written
  | identifier name => name.toList
  | member target name => bracketed accessStrength target.strength target.written ++ '.' :: name.toList
  | index target position =>
      bracketed accessStrength target.strength target.written ++ '[' :: position.written ++ [']']
  | call callee arguments =>
      bracketed accessStrength callee.strength callee.written ++ '(' :: writtenList arguments ++ [')']
  | unary operator operand =>
      operator.symbol.toList ++ bracketed unaryStrength operand.strength operand.written
  | binary operator left right =>
      bracketed operator.strength left.strength left.written ++
        ' ' :: operator.symbol.toList ++
        ' ' :: bracketed (operator.strength + 1) right.strength right.written
  | logical operator left right =>
      bracketed operator.strength left.strength left.written ++
        ' ' :: operator.symbol.toList ++
        ' ' :: bracketed (operator.strength + 1) right.strength right.written
  | conditional condition consequent alternative =>
      bracketed 1 condition.strength condition.written ++
        ' ' :: '?' :: ' ' :: consequent.written ++
        ' ' :: ':' :: ' ' :: alternative.written
where
  writtenList : List Expression → List Char
    | [] => []
    | [last] => last.written
    | first :: second :: rest => first.written ++ ',' :: ' ' :: writtenList (second :: rest)

def shown (expression : Expression) : String := String.ofList expression.written

end Expression

end ReactiveView
