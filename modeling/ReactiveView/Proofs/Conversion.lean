import Mathlib.Data.Nat.Log
import Mathlib.Tactic.Linarith
import Mathlib.Tactic.NormNum

/-!
# Whole numbers as floating-point numbers

A whole number of 64 bits is far below the greatest floating-point number, so what it
converts to is finite. The bounds on the exponents are coarse: each rounding may raise an
exponent by as much as the mantissa has bits to spare.
-/

namespace ReactiveView.Number

set_option autoImplicit false

open Float.Model (UnpackedFloat Format)
open Float.Model.UnpackedFloat

/-- Zero, or a finite number with a mantissa of so many bits and an exponent up to the bound. -/
inductive Bounded (bits : Nat) (bound : Int) : UnpackedFloat → Prop where
  | zero (sign : Sign) : Bounded bits bound (.zero sign)
  | finite {sign : Sign} {mantissa : Nat} {exponent : Int} {positive : 0 < mantissa}
      (small : mantissa < 2 ^ bits) (below : exponent ≤ bound) :
      Bounded bits bound (.finite sign mantissa exponent positive)

theorem Bounded.mono {bits : Nat} {bound higher : Int} {number : UnpackedFloat}
    (bounded : Bounded bits bound number) (further : bound ≤ higher) :
    Bounded bits higher number := by
  cases bounded with
  | zero sign => exact .zero sign
  | finite small below => exact .finite small (below.trans further)

theorem Bounded.isFinite {bits : Nat} {bound : Int} {number : UnpackedFloat}
    (bounded : Bounded bits bound number) : number.isFinite = true := by
  cases bounded <;> rfl

theorem Bounded.neg {bits : Nat} {bound : Int} {number : UnpackedFloat}
    (bounded : Bounded bits bound number) : Bounded bits bound number.neg := by
  cases bounded with
  | zero sign => exact .zero _
  | finite small below => exact .finite small below

theorem mantissa_shiftRight_le (extended : ExtendedMantissa) (count : Nat) :
    (extended >>> count).mantissa ≤ extended.mantissa := by
  induction count with
  | zero => exact Nat.le_refl _
  | succ count induction =>
      change (extended >>> count).mantissa / 2 ≤ _
      exact (Nat.div_le_self _ 2).trans induction

theorem roundedMantissa_le (extended : ExtendedMantissa) :
    extended.roundedMantissa ≤ extended.mantissa + 1 := by
  obtain ⟨mantissa, round, sticky⟩ := extended
  cases round <;> cases sticky <;>
    simp only [ExtendedMantissa.roundedMantissa, ExtendedMantissa.accuracy,
      Accuracy.roundToNearestEven]
  all_goals omega

theorem log2_le {mantissa bits : Nat} (small : mantissa < 2 ^ bits) : mantissa.log2 ≤ bits := by
  by_cases zero : mantissa = 0
  · simp [zero]
  · exact Nat.le_of_lt ((Nat.log2_lt zero).mpr small)

theorem exponent_shiftToTargetExponent_le {mantissa bits : Nat} (small : mantissa < 2 ^ bits)
    {exponent bound : Int} (below : exponent ≤ bound) (reach : -1074 ≤ bound)
    (spare : 52 ≤ bits) (accuracy : Accuracy) :
    (shiftToTargetExponent Format.binary64 mantissa exponent accuracy).2 ≤ bound + (bits - 52) := by
  have size := log2_le small
  change exponent + ((max (mantissa.log2 + 1 + exponent - 53) (-1074) - exponent).toNat : Int) ≤ _
  omega

theorem bounded_roundWithAccuracy {mantissa bits : Nat} (small : mantissa < 2 ^ bits)
    {exponent bound : Int} (below : exponent ≤ bound) (reach : -1074 ≤ bound)
    (spare : 52 ≤ bits) (sign : Sign) :
    Bounded (bits + 1) (bound + 2 * (bits - 51))
      (roundWithAccuracy Format.binary64 sign mantissa exponent .exact) := by
  have first := exponent_shiftToTargetExponent_le small below reach spare .exact
  have kept : (shiftToTargetExponent Format.binary64 mantissa exponent .exact).1.mantissa ≤
      mantissa := mantissa_shiftRight_le _ _
  have rounded := roundedMantissa_le
    (shiftToTargetExponent Format.binary64 mantissa exponent .exact).1
  have wider : mantissa + 1 < 2 ^ (bits + 1) := by
    have := Nat.two_pow_pos bits
    omega
  unfold roundWithAccuracy
  generalize shiftToTargetExponent Format.binary64 mantissa exponent .exact = shifted
    at first kept rounded ⊢
  obtain ⟨extended, raised⟩ := shifted
  dsimp only at first kept rounded ⊢
  have room : extended.roundedMantissa < 2 ^ (bits + 1) := by omega
  have second := exponent_shiftToTargetExponent_le room first (by omega) (by omega) .exact
  have kept' : (shiftToTargetExponent Format.binary64 extended.roundedMantissa raised .exact
      ).1.mantissa ≤ extended.roundedMantissa := mantissa_shiftRight_le _ _
  generalize shiftToTargetExponent Format.binary64 extended.roundedMantissa raised .exact = again
    at second kept' ⊢
  by_cases none : again.1.mantissa = 0
  · rw [dif_pos none]
    exact .zero sign
  · rw [dif_neg none]
    exact .finite (by omega) (by push_cast at second; omega)

theorem toNat_unpackExponent_pack_le {bits : Nat} {bound : Int} {number : UnpackedFloat}
    (bounded : Bounded bits bound number) (reach : -1074 ≤ bound) (range : bound ≤ 971) :
    ((unpackExponent (pack Format.binary64 number)).toNat : Int) ≤ bound + 1075 := by
  cases bounded with
  | zero sign =>
      change ((unpackExponent (packComponents Format.binary64 sign 0 0)).toNat : Int) ≤ _
      rw [unpackExponent_packComponents]
      change (0 : Int) ≤ _
      omega
  | @finite sign mantissa exponent positive small below =>
      let biased := (exponent + Format.binary64.exponentBias +
        Format.binary64.mantissaBitsWithoutImplicit).toNat
      have reached : (biased : Int) ≤ bound + 1075 := by
        change ((exponent + 1023 + 52).toNat : Int) ≤ _
        omega
      have fits : ¬2 ^ Format.binary64.exponentBits ≤ biased + 1 := by
        change ¬2048 ≤ _
        omega
      have packed : pack Format.binary64 (.finite sign mantissa exponent positive) =
          if 2 ^ Format.binary64.exponentBits ≤ biased + 1 then packedInfinity _ sign
          else if mantissa.log2 + 1 = Format.binary64.mantissaBits then
            packComponents _ sign (BitVec.ofNat _ biased) (BitVec.ofNat _ mantissa)
          else packComponents _ sign 0#_ (BitVec.ofNat _ mantissa) := rfl
      rw [packed, if_neg fits]
      split
      · rw [unpackExponent_packComponents, BitVec.toNat_ofNat]
        exact (Int.ofNat_le.mpr (Nat.mod_le _ _)).trans reached
      · rw [unpackExponent_packComponents]
        change (0 : Int) ≤ _
        omega

/-- What is unpacked from bits with a small exponent is bounded. -/
theorem bounded_unpack {bits : BitVec Format.binary64.numBits} {bound : Int}
    (small : ((unpackExponent bits).toNat : Int) ≤ bound + 1075) (reach : -1074 ≤ bound)
    (range : bound ≤ 971) : Bounded 53 bound (unpack Format.binary64 bits) := by
  have finite : unpackExponent bits ≠ -1#_ := by
    intro ones
    rw [ones] at small
    change (2047 : Int) ≤ _ at small
    omega
  unfold unpack
  dsimp only
  rw [if_neg finite]
  by_cases least : unpackExponent bits = 0#_
  · rw [if_pos least]
    by_cases none : unpackMantissa bits = 0#_
    · rw [dif_pos none]
      exact .zero _
    · rw [dif_neg none]
      have size := (unpackMantissa bits).isLt
      refine .finite ?_ ?_
      · change (unpackMantissa bits).toNat < 2 ^ 53
        exact size.trans (by decide)
      · rw [least]
        change (0 : Int) - (1023 + 52) + 1 ≤ _
        omega
  · rw [if_neg least]
    refine .finite (1#1 ++ unpackMantissa bits).isLt ?_
    change ((unpackExponent bits).toNat : Int) - (1023 + 52) ≤ _
    omega

theorem bounded_unpack_pack {bits : Nat} {bound : Int} {number : UnpackedFloat}
    (bounded : Bounded bits bound number) (reach : -1074 ≤ bound) (range : bound ≤ 971) :
    Bounded 53 bound (Float.Model.pack number).unpack :=
  bounded_unpack (toNat_unpackExponent_pack_le bounded reach range) reach range

theorem bounded_mul {left right : UnpackedFloat} {bits bits' : Nat} {bound bound' : Int}
    (first : Bounded bits bound left) (second : Bounded bits' bound' right)
    (reach : -1074 ≤ bound + bound') (spare : 52 ≤ bits + bits') :
    Bounded (bits + bits' + 1) (bound + bound' + 2 * (bits + bits' - 51))
      (UnpackedFloat.mul Format.binary64 left right) := by
  cases first with
  | zero sign => cases second <;> exact .zero _
  | @finite sign mantissa exponent positive small below =>
      cases second with
      | zero sign' => exact .zero _
      | @finite sign' mantissa' exponent' positive' small' below' =>
          have product : mantissa * mantissa' < 2 ^ (bits + bits') := by
            rw [Nat.pow_add]
            exact Nat.mul_lt_mul'' small small'
          have result := bounded_roundWithAccuracy product (Int.add_le_add below below') reach
            spare (sign * sign')
          push_cast at result
          exact result

theorem bounded_ofNat {value : Nat} (small : value < 2 ^ 53) :
    Bounded 106 108 (UnpackedFloat.ofNat Format.binary64 value) := by
  change Bounded 106 108 (UnpackedFloat.normalize Format.binary64 value 0 .positive)
  unfold UnpackedFloat.normalize
  split
  · next less =>
      rw [Int.compare_eq_lt] at less
      omega
  · exact .zero _
  · change Bounded 106 108 (roundWithAccuracy Format.binary64 .positive
      (value <<< (0 - max ((value.log2 : Int) + 1 + 0 - 53) (-1074)).toNat)
      (0 - ((0 - max ((value.log2 : Int) + 1 + 0 - 53) (-1074)).toNat : Int)) .exact)
    generalize moved : (0 - max ((value.log2 : Int) + 1 + 0 - 53) (-1074)).toNat = shift
    have reach : shift ≤ 52 := by omega
    have room : value <<< shift < 2 ^ 105 := by
      rw [Nat.shiftLeft_eq]
      calc value * 2 ^ shift < 2 ^ 53 * 2 ^ shift :=
            Nat.mul_lt_mul_of_pos_right small (Nat.two_pow_pos shift)
        _ ≤ 2 ^ 53 * 2 ^ 52 := Nat.mul_le_mul_left _ (Nat.pow_le_pow_right (by decide) reach)
        _ = 2 ^ 105 := by norm_num
    have lowered : 0 - (shift : Int) ≤ 0 := by omega
    exact bounded_roundWithAccuracy room lowered (by decide) (by decide) .positive

theorem bounded_one : Bounded 53 (-52) (Float.ofBits 0x3FF0000000000000).toModel.unpack := by
  have same : (Float.ofBits 0x3FF0000000000000).toModel.unpack =
      .finite .positive (2 ^ 52) (-52) (by decide) := rfl
  rw [same]
  exact .finite (by decide) (by decide)

/-- A whole number that a mantissa does not hold is the product of what it is, moved to the
left, and one. -/
theorem bounded_ofScientific {value : Nat} (small : value < 2 ^ 64) (positive : value ≠ 0) :
    Bounded 119 300 (UnpackedFloat.ofScientific Format.binary64 value 0) := by
  have near : ¬(0 : Int) < -((2 ^ Format.binary64.exponentBits : Int) + value.log2) := by
    change ¬(0 : Int) < -(2048 + (value.log2 : Int))
    omega
  rw [UnpackedFloat.ofScientific, dif_neg positive, if_neg (by decide), if_neg near,
    if_pos (by decide)]
  have moved : value <<< Format.binary64.mantissaBits < 2 ^ 117 := by
    change value <<< 53 < 2 ^ 117
    rw [Nat.shiftLeft_eq]
    omega
  have one : 10 ^ (0 : Int).toNat < 2 ^ 1 := by decide
  have lowest : -(Format.binary64.mantissaBits : Int) ≤ -53 := Int.le_refl _
  exact (bounded_mul (.finite moved lowest) (.finite one (Int.le_refl 0)) (by decide)
    (by decide)).mono (by decide)

theorem bounded_float_ofNat {value : Nat} (small : value < 2 ^ 64) :
    Bounded 53 300 (Float.ofNat value).toModel.unpack := by
  change Bounded 53 300 (Float.ofScientific value false 0).toModel.unpack
  rw [Float.ofScientific]
  by_cases fits : value < 2 ^ 53
  · rw [dif_pos ⟨fits, by decide⟩, if_neg (by decide)]
    have whole : Bounded 53 108 (Float.Model.ofUInt64 value.toUInt64).unpack := by
      have same : value.toUInt64.toNat = value := Nat.mod_eq_of_lt small
      have fits' : value.toUInt64.toNat < 2 ^ 53 := same.symm ▸ fits
      exact bounded_unpack_pack (bounded_ofNat fits') (by decide) (by decide)
    have product : Bounded 107 300 (UnpackedFloat.mul Format.binary64 _ _) :=
      (bounded_mul whole bounded_one (by decide) (by decide)).mono (by decide)
    exact bounded_unpack_pack product (by decide) (by decide)
  · rw [dif_neg fun both => fits both.1]
    have positive : value ≠ 0 := by
      rintro rfl
      exact fits (by decide)
    exact bounded_unpack_pack (bounded_ofScientific small positive) (by decide) (by decide)

/-- A whole number of 64 bits, with a sign or without, converts to a finite number. -/
theorem isFinite_ofInt {value : Int} (least : -2 ^ 63 ≤ value) (below : value < 2 ^ 64) :
    (Float.ofInt value).isFinite = true := by
  cases value with
  | ofNat count =>
      have small : count < 2 ^ 64 := Int.ofNat_lt.mp below
      exact (bounded_float_ofNat small).isFinite
  | negSucc count =>
      have small : count.succ < 2 ^ 64 := by omega
      have bounded := bounded_float_ofNat small
      exact (bounded_unpack_pack bounded.neg (by decide) (by decide)).isFinite

end ReactiveView.Number
