/-!
# Decimals

A decimal is a whole number times a power of ten. It is compared exactly with
a whole number times a power of two, read from its digits, laid out with or
without an exponent, and rounded to the nearest floating-point number.
-/

namespace ReactiveView.Number

set_option autoImplicit false

/-- The number `digits * 10 ^ exponent`. -/
structure Decimal where
  digits : Nat
  exponent : Int
  deriving DecidableEq

namespace Decimal

/-- The exact order of `digits * 10 ^ exponent` and `mantissa * 2 ^ power`. -/
def compareBinary (decimal : Decimal) (mantissa : Nat) (power : Int) : Ordering :=
  compare (decimal.digits * Nat.pow 10 decimal.exponent.toNat * Nat.pow 2 (-power).toNat)
    (mantissa * Nat.pow 2 power.toNat * Nat.pow 10 (-decimal.exponent).toNat)

def stripZeros : Nat → Decimal → Decimal
  | 0, decimal => decimal
  | bound + 1, decimal =>
      if decimal.digits % 10 = 0 then
        stripZeros bound ⟨decimal.digits / 10, decimal.exponent + 1⟩
      else decimal

def written (decimal : Decimal) : List Char := Nat.toDigits 10 decimal.digits

def leadingExponent (decimal : Decimal) : Int :=
  decimal.exponent + decimal.written.length - 1

def positional (decimal : Decimal) : List Char :=
  let point := decimal.exponent + decimal.written.length
  if 0 ≤ decimal.exponent then
    decimal.written ++ List.replicate decimal.exponent.toNat '0'
  else if 0 < point then
    decimal.written.take point.toNat ++ '.' :: decimal.written.drop point.toNat
  else
    '0' :: '.' :: List.replicate (-point).toNat '0' ++ decimal.written

/-- With a signed exponent, the point after the first digit. -/
def scientific (decimal : Decimal) : List Char :=
  let fraction := decimal.written.drop 1
  let power := decimal.leadingExponent
  decimal.written.take 1 ++ (if fraction.isEmpty then [] else '.' :: fraction) ++
    'e' :: (if power < 0 then '-' else '+') :: Nat.toDigits 10 power.natAbs

def valueOfDigits (base : Nat) (digits : List Nat) : Nat :=
  digits.foldl (fun value digit => value * base + digit) 0

def wholeOfDigits (digits : List Char) : Nat :=
  valueOfDigits 10 (digits.map (fun c => c.toNat - '0'.toNat))

def ofParts (whole fraction : List Char) (power : Int) : Decimal :=
  ⟨wholeOfDigits (whole ++ fraction), power - fraction.length⟩

/-- The nearest floating-point number, to even on a tie. -/
def toFloat (decimal : Decimal) : Float :=
  Float.ofScientific decimal.digits (decimal.exponent < 0) decimal.exponent.natAbs

end Decimal

end ReactiveView.Number
