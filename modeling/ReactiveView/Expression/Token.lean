import ReactiveView.Number.Notation

/-!
# Tokens

The words of the expression language: numbers, quoted texts, names, keywords
and symbols, and the way each is shown.
-/

namespace ReactiveView

set_option autoImplicit false

inductive Keyword where
  | true
  | false
  | null
  deriving DecidableEq

inductive Symbol where
  | roundOpen
  | roundClose
  | squareOpen
  | squareClose
  | comma
  | dot
  | question
  | colon
  | plus
  | minus
  | asterisk
  | slash
  | percent
  | bang
  | strictEqual
  | strictNotEqual
  | equal
  | notEqual
  | greaterOrEqual
  | greater
  | lessOrEqual
  | less
  | and
  | or
  deriving DecidableEq

/-- A token. A quoted text keeps what stands between its quotes, escapes and
all. -/
inductive Token where
  | number (value : Float)
  | text (raw : String)
  | identifier (name : String)
  | keyword (word : Keyword)
  | symbol (mark : Symbol)
  deriving DecidableEq

namespace Keyword

def spelling : Keyword → String
  | true => "true"
  | false => "false"
  | null => "null"

end Keyword

namespace Symbol

def spelling : Symbol → String
  | roundOpen => "("
  | roundClose => ")"
  | squareOpen => "["
  | squareClose => "]"
  | comma => ","
  | dot => "."
  | question => "?"
  | colon => ":"
  | plus => "+"
  | minus => "-"
  | asterisk => "*"
  | slash => "/"
  | percent => "%"
  | bang => "!"
  | strictEqual => "==="
  | strictNotEqual => "!=="
  | equal => "=="
  | notEqual => "!="
  | greaterOrEqual => ">="
  | greater => ">"
  | lessOrEqual => "<="
  | less => "<"
  | and => "&&"
  | or => "||"

end Symbol

namespace Token

def shown : Token → String
  | number value => Number.plainText value
  | text raw => "'" ++ raw ++ "'"
  | identifier name => name
  | keyword word => word.spelling
  | symbol mark => mark.spelling

end Token

/-- A token and the bytes of the source it covers, from `start` up to `stop`. -/
structure Lexeme where
  token : Token
  start : Nat
  stop : Nat
  deriving DecidableEq

end ReactiveView
