import ReactiveView.Expression.Basic
import ReactiveView.Expression.Lexer

/-!
# From tokens to expressions

A conditional stands around an operation, an operation joins operands by infix
operators, and an operand is an access behind any number of unary operators. An
operation is read by strength: the right operand of an operator ends before the
first operator that is not stronger, so that equally strong ones group to the
left. Where what would continue an expression cannot be read to its end, the
expression ends before it.
-/

namespace ReactiveView

set_option autoImplicit false

/-- What is read from the front of some tokens, and the tokens that follow it,
fewer than the bound. -/
structure Taken (α : Type) (bound : Nat) where
  value : α
  rest : List Token
  shorter : rest.length < bound

namespace Taken

variable {α : Type} {bound wider : Nat}

def within (taken : Taken α bound) (bounds : bound ≤ wider) : Taken α wider :=
  ⟨taken.value, taken.rest, Nat.lt_of_lt_of_le taken.shorter bounds⟩

def pair (taken : Taken α bound) : α × List Token := (taken.value, taken.rest)

@[simp] theorem pair_within (taken : Taken α bound) (bounds : bound ≤ wider) :
    (taken.within bounds).pair = taken.pair := rfl

@[simp] theorem value_within (taken : Taken α bound) (bounds : bound ≤ wider) :
    (taken.within bounds).value = taken.value := rfl

@[simp] theorem rest_within (taken : Taken α bound) (bounds : bound ≤ wider) :
    (taken.within bounds).rest = taken.rest := rfl

end Taken

/-- Reads something that some tokens start with. It takes at least one token. -/
abbrev Reader (α : Type) : Type := (tokens : List Token) → Option (Taken α tokens.length)

inductive Connective where
  | binary (operator : BinaryOperator)
  | logical (operator : LogicalOperator)
  deriving DecidableEq

namespace Connective

def strength : Connective → Nat
  | binary operator => operator.strength
  | logical operator => operator.strength

def join : Connective → Expression → Expression → Expression
  | binary operator => .binary operator
  | logical operator => .logical operator

def ofSymbol? : Symbol → Option Connective
  | .asterisk => some (binary .multiply)
  | .slash => some (binary .divide)
  | .percent => some (binary .remainder)
  | .plus => some (binary .add)
  | .minus => some (binary .subtract)
  | .less => some (binary .less)
  | .lessOrEqual => some (binary .lessOrEqual)
  | .greater => some (binary .greater)
  | .greaterOrEqual => some (binary .greaterOrEqual)
  | .equal => some (binary .equal)
  | .notEqual => some (binary .notEqual)
  | .strictEqual => some (binary .strictEqual)
  | .strictNotEqual => some (binary .strictNotEqual)
  | .and => some (logical .and)
  | .or => some (logical .or)
  | _ => none

end Connective

namespace UnaryOperator

def ofSymbol? : Symbol → Option UnaryOperator
  | .bang => some not
  | .minus => some negate
  | .plus => some plus
  | _ => none

end UnaryOperator

namespace Expression

/-- The characters that escapes in a quoted text stand for. A backslash at the
end stands for itself. -/
def unescape : List Char → List Char
  | [] => []
  | ['\\'] => ['\\']
  | '\\' :: letter :: rest =>
      (match letter with
        | 'n' => '\n'
        | 't' => '\t'
        | 'r' => '\r'
        | '0' => '\x00'
        | other => other) :: unescape rest
  | c :: rest => c :: unescape rest

inductive Suffix where
  | member (name : String)
  | index (position : Expression)
  | call (arguments : List Expression)

namespace Suffix

def onto (target : Expression) : Suffix → Expression
  | member name => .member target name
  | index position => .index target position
  | call arguments => .call target arguments

end Suffix

section

variable (inner : Reader Expression)

def readAtom : Reader Expression
  | .number value :: rest => some ⟨literal (.number value), rest, Nat.lt_succ_self _⟩
  | .text raw :: rest =>
      some ⟨literal (.text (String.ofList (unescape raw.toList))), rest, Nat.lt_succ_self _⟩
  | .keyword .true :: rest => some ⟨literal (.bool true), rest, Nat.lt_succ_self _⟩
  | .keyword .false :: rest => some ⟨literal (.bool false), rest, Nat.lt_succ_self _⟩
  | .keyword .null :: rest => some ⟨literal .null, rest, Nat.lt_succ_self _⟩
  | .identifier name :: rest => some ⟨identifier name, rest, Nat.lt_succ_self _⟩
  | .symbol .roundOpen :: rest =>
      match inner rest with
      | some ⟨expression, .symbol .roundClose :: after, shorter⟩ =>
          some ⟨expression, after, by simp only [List.length_cons] at shorter ⊢; omega⟩
      | _ => none
  | _ => none

def readItems (tokens : List Token) : Taken (List Expression) (tokens.length + 1) :=
  match inner tokens with
  | none => ⟨[], tokens, Nat.lt_succ_self _⟩
  | some ⟨item, rest, shorter⟩ =>
      match rest with
      | .symbol .comma :: others =>
          let items := readItems others
          ⟨item :: items.value, items.rest, by
            have bound := items.shorter
            simp only [List.length_cons] at shorter
            omega⟩
      | rest => ⟨[item], rest, Nat.lt_succ_of_lt shorter⟩
termination_by tokens.length
decreasing_by
  simp only [List.length_cons] at shorter
  omega

def readSuffix : Reader Suffix
  | .symbol .dot :: .identifier name :: rest =>
      some ⟨.member name, rest, by simp only [List.length_cons]; omega⟩
  | .symbol .squareOpen :: rest =>
      match inner rest with
      | some ⟨position, .symbol .squareClose :: after, shorter⟩ =>
          some ⟨.index position, after, by simp only [List.length_cons] at shorter ⊢; omega⟩
      | _ => none
  | .symbol .roundOpen :: rest =>
      match readItems inner rest with
      | ⟨arguments, .symbol .roundClose :: after, shorter⟩ =>
          some ⟨.call arguments, after, by simp only [List.length_cons] at shorter ⊢; omega⟩
      | _ => none
  | _ => none

def readSuffixes (target : Expression) (tokens : List Token) :
    Taken Expression (tokens.length + 1) :=
  match readSuffix inner tokens with
  | some ⟨suffix, rest, shorter⟩ =>
      (readSuffixes (suffix.onto target) rest).within (Nat.succ_le_succ (Nat.le_of_lt shorter))
  | none => ⟨target, tokens, Nat.lt_succ_self _⟩
termination_by tokens.length

def readAccess : Reader Expression := fun tokens =>
  match readAtom inner tokens with
  | some ⟨atom, rest, shorter⟩ => some ((readSuffixes inner atom rest).within shorter)
  | none => none

mutual

/-- An operation in which all infix operators outside brackets have at least the
given strength. -/
def readOperation (least : Nat) (tokens : List Token) :
    Option (Taken Expression tokens.length) :=
  match (readUnary tokens).or (readAccess inner tokens) with
  | some ⟨operand, rest, shorter⟩ => some ((readJoined least operand rest).within shorter)
  | none => none
termination_by 2 * tokens.length + 1

def readUnary (tokens : List Token) : Option (Taken Expression tokens.length) :=
  match tokens with
  | .symbol mark :: rest =>
      match UnaryOperator.ofSymbol? mark with
      | some operator =>
          match readOperation Expression.unaryStrength rest with
          | some ⟨operand, after, shorter⟩ =>
              some ⟨unary operator operand, after, Nat.lt_succ_of_lt shorter⟩
          | none => none
      | none => none
  | _ => none
termination_by 2 * tokens.length

/-- The operators of at least the given strength that follow `left`, each with its
right operand. -/
def readJoined (least : Nat) (left : Expression) (tokens : List Token) :
    Taken Expression (tokens.length + 1) :=
  match tokens with
  | .symbol mark :: rest =>
      match (Connective.ofSymbol? mark).filter (fun connective => least ≤ connective.strength) with
      | some connective =>
          match readOperation (connective.strength + 1) rest with
          | some ⟨right, after, shorter⟩ =>
              (readJoined least (connective.join left right) after).within (by
                simp only [List.length_cons]
                omega)
          | none => ⟨left, .symbol mark :: rest, Nat.lt_succ_self _⟩
      | none => ⟨left, .symbol mark :: rest, Nat.lt_succ_self _⟩
  | other => ⟨left, other, Nat.lt_succ_self _⟩
termination_by 2 * tokens.length

end

def readBranches : Reader (Expression × Expression)
  | .symbol .question :: rest =>
      match inner rest with
      | some ⟨consequent, .symbol .colon :: others, shorter⟩ =>
          match inner others with
          | some ⟨alternative, after, shorter'⟩ =>
              some ⟨(consequent, alternative), after, by
                simp only [List.length_cons] at shorter ⊢
                omega⟩
          | none => none
      | _ => none
  | _ => none

def readConditional : Reader Expression := fun tokens =>
  match readOperation inner 0 tokens with
  | some ⟨condition, rest, shorter⟩ =>
      match readBranches inner rest with
      | some ⟨(consequent, alternative), after, shorter'⟩ =>
          some ⟨conditional condition consequent alternative, after, Nat.lt_trans shorter' shorter⟩
      | none => some ⟨condition, rest, shorter⟩
  | none => none

end

/-- Reads an expression whose brackets and branches are nested at most `depth`
deep. -/
def readNested : Nat → Reader Expression
  | 0 => fun _ => none
  | depth + 1 => readConditional (readNested depth)

/-- The expression that all the tokens together spell. An inner expression
starts after at least one token, so the number of tokens bounds the nesting. -/
def ofTokens? (tokens : List Token) : Option Expression :=
  match readNested (tokens.length + 1) tokens with
  | some ⟨expression, [], _⟩ => some expression
  | _ => none

def parse? (source : String) : Option Expression :=
  (Token.lexemes source).bind (fun lexemes => ofTokens? (lexemes.map Lexeme.token))

end Expression

end ReactiveView
