/-!
# Remainders

The remainder of a division toward zero, computed exactly on the binary
expansions: it has the sign of the dividend, is smaller than the divisor, and
needs no rounding.
-/

namespace ReactiveView.Number

set_option autoImplicit false

open Float.Model

def unpackedRemainder : UnpackedFloat → UnpackedFloat → UnpackedFloat
  | .notANumber, _ => .notANumber
  | _, .notANumber => .notANumber
  | .infinity _, _ => .notANumber
  | _, .zero _ => .notANumber
  | .zero sign, _ => .zero sign
  | .finite sign mantissa power positive, .infinity _ => .finite sign mantissa power positive
  | .finite sign mantissa power _, .finite _ divisor divisorPower _ =>
      let common := min power divisorPower
      let rest := (mantissa * Nat.pow 2 (power - common).toNat) %
        (divisor * Nat.pow 2 (divisorPower - common).toNat)
      if rest = 0 then .zero sign else UnpackedFloat.round Format.binary64 sign rest common

def remainder (dividend divisor : Float) : Float :=
  .ofModel (pack (unpackedRemainder dividend.toModel.unpack divisor.toModel.unpack))

/-- The whole number that a number is, if it is one and not negative. Negative
zero counts as zero. -/
def natural? (x : Float) : Option Nat :=
  match x.toModel.unpack with
  | .zero _ => some 0
  | .finite .positive mantissa power _ =>
      if 0 ≤ power then some (mantissa * Nat.pow 2 power.toNat)
      else if mantissa % Nat.pow 2 (-power).toNat = 0 then
        some (mantissa / Nat.pow 2 (-power).toNat)
      else none
  | _ => none

end ReactiveView.Number
