import ReactiveView.Number.Decimal
import ReactiveView.Text.Blank

/-!
# Numbers in text

The numeric reading of a text. White space at both ends does not count and
blank text reads as zero. Otherwise the text is a whole number in base 16, 8 or
2 after its mark, or `Infinity` or a decimal, both with an optional sign. All
other text has no numeric reading: the general readings of floating-point
numbers and of whole numbers take more, and what they take beyond this is
filtered out in front of them.
-/

namespace ReactiveView.Number

set_option autoImplicit false

def spanDigits (characters : List Char) : List Char × List Char :=
  (characters.takeWhile Char.isDigit, characters.dropWhile Char.isDigit)

theorem spanDigits_append (characters : List Char) :
    (spanDigits characters).1 ++ (spanDigits characters).2 = characters :=
  List.takeWhile_append_dropWhile

/-- A sign, if one stands in front (`true` for minus), and what follows it. -/
def splitSign : List Char → Bool × List Char
  | '-' :: rest => (true, rest)
  | '+' :: rest => (false, rest)
  | characters => (false, characters)

def readPower : List Char → Option Int
  | [] => some 0
  | mark :: rest =>
      if mark = 'e' ∨ mark = 'E' then
        let (negative, digits) := splitSign rest
        if digits ≠ [] ∧ digits.all Char.isDigit then
          let power : Int := Decimal.wholeOfDigits digits
          some (if negative then -power else power)
        else none
      else none

/-- A decimal without a sign: digits with an optional point among, before or
after them, at least one digit, and an optional exponent. -/
def readDecimal (characters : List Char) : Option Decimal :=
  let (whole, afterWhole) := spanDigits characters
  let (fraction, afterFraction) :=
    match afterWhole with
    | '.' :: rest => spanDigits rest
    | _ => ([], afterWhole)
  if whole = [] ∧ fraction = [] then none
  else (readPower afterFraction).map (Decimal.ofParts whole fraction)

def signed (negative : Bool) (x : Float) : Float := if negative then -x else x

def named? (characters : List Char) : Option Float :=
  let name := characters.map Char.toLower
  if name = "nan".toList then some (0.0 / 0.0)
  else if name = "inf".toList ∨ name = "infinity".toList then some (1.0 / 0.0)
  else none

/-- Any floating-point number: a decimal or a name, with an optional sign. -/
def readFloat (characters : List Char) : Option Float :=
  let (negative, unsigned) := splitSign characters
  match readDecimal unsigned with
  | some decimal => some (signed negative decimal.toFloat)
  | none => (named? unsigned).map (signed negative)

def inDecimals (c : Char) : Bool :=
  c.isDigit || c = '.' || c = 'e' || c = 'E' || c = '+' || c = '-'

/-- `Infinity` or a decimal, with an optional sign. No other name passes. -/
def readSigned (characters : List Char) : Option Float :=
  let (negative, unsigned) := splitSign characters
  if unsigned = "Infinity".toList then some (signed negative (1.0 / 0.0))
  else if unsigned.all inDecimals then readFloat characters
  else none

/-- The base that a mark in front of whole-number digits announces. -/
def baseOfMark : Char → Option Nat
  | 'x' | 'X' => some 16
  | 'o' | 'O' => some 8
  | 'b' | 'B' => some 2
  | _ => none

def digitValue? (c : Char) : Option Nat :=
  if '0' ≤ c ∧ c ≤ '9' then some (c.toNat - '0'.toNat)
  else if 'a' ≤ c ∧ c ≤ 'f' then some (c.toNat - 'a'.toNat + 10)
  else if 'A' ≤ c ∧ c ≤ 'F' then some (c.toNat - 'A'.toNat + 10)
  else none

def digitIn? (base : Nat) (c : Char) : Option Nat :=
  (digitValue? c).filter (fun digit => digit < base)

/-- A whole number in the given base, with an optional plus. There is at least
one digit, and the value fits 64 bits. -/
def readWhole (base : Nat) (characters : List Char) : Option Nat :=
  let digits := match characters with
    | '+' :: rest => rest
    | _ => characters
  if digits = [] then none
  else
    match digits.mapM (digitIn? base) with
    | none => none
    | some values =>
        let value := Decimal.valueOfDigits base values
        if value < Nat.pow 2 64 then some value else none

def readMarked (base : Nat) (characters : List Char) : Option Float :=
  if characters.all Char.isAlphanum then (readWhole base characters).map Float.ofNat
  else none

def readTrimmed : List Char → Option Float
  | [] => some 0
  | '0' :: mark :: rest =>
      match baseOfMark mark with
      | some base => readMarked base rest
      | none => readSigned ('0' :: mark :: rest)
  | characters => readSigned characters

def read (text : String) : Option Float := readTrimmed (Text.trim text.toList)

end ReactiveView.Number
