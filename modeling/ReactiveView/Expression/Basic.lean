/-!
# Expressions

The syntax tree of binding expressions: literals, names, access to members and
elements, calls, operators and conditionals.
-/

namespace ReactiveView

set_option autoImplicit false

inductive Literal where
  | null
  | bool (value : Bool)
  | number (value : Float)
  | text (value : String)
  deriving DecidableEq

inductive UnaryOperator where
  | not
  | negate
  | plus
  deriving DecidableEq

inductive BinaryOperator where
  | multiply
  | divide
  | remainder
  | add
  | subtract
  | less
  | lessOrEqual
  | greater
  | greaterOrEqual
  | equal
  | notEqual
  | strictEqual
  | strictNotEqual
  deriving DecidableEq

/-- Operators that evaluate the right operand only when the left one does not
decide the result. -/
inductive LogicalOperator where
  | and
  | or
  deriving DecidableEq

namespace UnaryOperator

def symbol : UnaryOperator → String
  | not => "!"
  | negate => "-"
  | plus => "+"

end UnaryOperator

namespace BinaryOperator

def symbol : BinaryOperator → String
  | multiply => "*"
  | divide => "/"
  | remainder => "%"
  | add => "+"
  | subtract => "-"
  | less => "<"
  | lessOrEqual => "<="
  | greater => ">"
  | greaterOrEqual => ">="
  | equal => "=="
  | notEqual => "!="
  | strictEqual => "==="
  | strictNotEqual => "!=="

/-- How tightly the operator holds its operands. -/
def strength : BinaryOperator → Nat
  | equal | notEqual | strictEqual | strictNotEqual => 3
  | less | lessOrEqual | greater | greaterOrEqual => 4
  | add | subtract => 5
  | multiply | divide | remainder => 6

end BinaryOperator

namespace LogicalOperator

def symbol : LogicalOperator → String
  | and => "&&"
  | or => "||"

def strength : LogicalOperator → Nat
  | or => 1
  | and => 2

end LogicalOperator

inductive Expression where
  | literal (value : Literal)
  | identifier (name : String)
  | member (target : Expression) (name : String)
  | index (target position : Expression)
  | call (callee : Expression) (arguments : List Expression)
  | unary (operator : UnaryOperator) (operand : Expression)
  | binary (operator : BinaryOperator) (left right : Expression)
  | logical (operator : LogicalOperator) (left right : Expression)
  | conditional (condition consequent alternative : Expression)

namespace Expression

instance : Inhabited Expression := ⟨.literal .null⟩

/-- The field path of a name or a chain of members below a name. Nothing else
can be assigned to. -/
def path? : Expression → Option (List String)
  | identifier name => some [name]
  | member target name => target.path?.map (· ++ [name])
  | _ => none

/-- How tightly a unary operator holds its operand. -/
def unaryStrength : Nat := 7

def accessStrength : Nat := 8

def strength : Expression → Nat
  | conditional _ _ _ => 0
  | binary operator _ _ => operator.strength
  | logical operator _ _ => operator.strength
  | unary _ _ => unaryStrength
  | _ => accessStrength

def same : Expression → Expression → Bool
  | literal left, literal right => left = right
  | identifier left, identifier right => left = right
  | member target name, member target' name' => target.same target' && name = name'
  | index target position, index target' position' =>
      target.same target' && position.same position'
  | call callee arguments, call callee' arguments' =>
      callee.same callee' && allSame arguments arguments'
  | unary operator operand, unary operator' operand' =>
      operator = operator' && operand.same operand'
  | binary operator left right, binary operator' left' right' =>
      operator = operator' && left.same left' && right.same right'
  | logical operator left right, logical operator' left' right' =>
      operator = operator' && left.same left' && right.same right'
  | conditional condition consequent alternative,
      conditional condition' consequent' alternative' =>
      condition.same condition' && consequent.same consequent' &&
        alternative.same alternative'
  | _, _ => false
where
  allSame : List Expression → List Expression → Bool
    | [], [] => true
    | left :: lefts, right :: rights => left.same right && allSame lefts rights
    | _, _ => false

mutual

theorem same_self (e : Expression) : e.same e = true := by
  cases e with
  | literal value => simp [same]
  | identifier name => simp [same]
  | member target name => simp [same, same_self target]
  | index target position => simp [same, same_self target, same_self position]
  | call callee arguments => simp [same, same_self callee, allSame_self arguments]
  | unary operator operand => simp [same, same_self operand]
  | binary operator left right => simp [same, same_self left, same_self right]
  | logical operator left right => simp [same, same_self left, same_self right]
  | conditional condition consequent alternative =>
      simp [same, same_self condition, same_self consequent, same_self alternative]

theorem allSame_self (es : List Expression) : same.allSame es es = true := by
  cases es with
  | nil => rfl
  | cons first rest => simp [same.allSame, same_self first, allSame_self rest]

end

mutual

theorem eq_of_same {left right : Expression} (equal : left.same right = true) : left = right := by
  match left, right with
  | literal _, literal _ | identifier _, identifier _ => simpa [same] using equal
  | member _ _, member _ _ =>
      simp only [same, Bool.and_eq_true, decide_eq_true_eq] at equal
      rw [eq_of_same equal.1, equal.2]
  | index _ _, index _ _ =>
      simp only [same, Bool.and_eq_true] at equal
      rw [eq_of_same equal.1, eq_of_same equal.2]
  | call _ _, call _ _ =>
      simp only [same, Bool.and_eq_true] at equal
      rw [eq_of_same equal.1, eq_of_allSame equal.2]
  | unary _ _, unary _ _ =>
      simp only [same, Bool.and_eq_true, decide_eq_true_eq] at equal
      rw [equal.1, eq_of_same equal.2]
  | binary _ _ _, binary _ _ _ | logical _ _ _, logical _ _ _ =>
      simp only [same, Bool.and_eq_true, decide_eq_true_eq] at equal
      rw [equal.1.1, eq_of_same equal.1.2, eq_of_same equal.2]
  | conditional _ _ _, conditional _ _ _ =>
      simp only [same, Bool.and_eq_true] at equal
      rw [eq_of_same equal.1.1, eq_of_same equal.1.2, eq_of_same equal.2]

theorem eq_of_allSame {lefts rights : List Expression}
    (equal : same.allSame lefts rights = true) : lefts = rights := by
  match lefts, rights with
  | [], [] => rfl
  | _ :: _, _ :: _ =>
      simp only [same.allSame, Bool.and_eq_true] at equal
      rw [eq_of_same equal.1, eq_of_allSame equal.2]

end

instance : DecidableEq Expression := fun left right =>
  decidable_of_iff (left.same right = true) ⟨eq_of_same, fun equal => equal ▸ same_self left⟩

end Expression

end ReactiveView
