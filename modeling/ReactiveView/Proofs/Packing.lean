import Mathlib
import ReactiveView.Proofs.Rounding

/-!
# From decimals to floating-point numbers

Bits hold a floating-point number in its canonical form, and give it back. The operations on
unpacked numbers round their exact results, so the decimal that lies in the interval of a
floating-point number is converted to it, by the multiplication or division with a power of ten
that a short decimal takes as well as by exact arithmetic.
-/

namespace ReactiveView.Number

set_option autoImplicit false

open Float.Model (UnpackedFloat Format)
open Float.Model.UnpackedFloat

theorem pack_unpack (x : Float.Model) : Float.Model.pack x.unpack = x := by
  obtain ⟨bits, valid⟩ := x
  rw [Float.Model.mk.injEq]
  exact UInt64.toBitVec_inj.mp (pack_unpack_of_valid valid)

theorem toNat_implicit {fraction : Nat} (low : 2 ^ 52 ≤ fraction) (high : fraction < 2 ^ 53) :
    (1#1 ++ BitVec.ofNat Format.binary64.mantissaBitsWithoutImplicit fraction).toNat =
      fraction := by
  have joined : (1#1 ++ BitVec.ofNat Format.binary64.mantissaBitsWithoutImplicit fraction).toNat =
      2 ^ 52 + fraction % 2 ^ 52 := by
    rw [BitVec.toNat_append, ← Nat.shiftLeft_add_eq_or_of_lt (BitVec.isLt _), BitVec.toNat_ofNat]
    rfl
  omega

/-- A biased exponent between the least and the largest one stands for a full mantissa. -/
theorem unpack_normal {mantissa biased : Nat} (full : 2 ^ 52 ≤ mantissa)
    (below : mantissa < 2 ^ 53) (some : 0 < biased) (finite : biased < 2047) (sign : Sign) :
    unpack Format.binary64
        (packComponents _ sign (BitVec.ofNat _ biased) (BitVec.ofNat _ mantissa)) =
      .finite sign mantissa (biased - 1075) (Nat.lt_of_lt_of_le (by decide) full) := by
  have stored : (BitVec.ofNat Format.binary64.exponentBits biased).toNat = biased := by
    rw [BitVec.toNat_ofNat]
    exact Nat.mod_eq_of_lt (by change biased < 2048; omega)
  have notOnes : BitVec.ofNat Format.binary64.exponentBits biased ≠ -1#_ := by
    intro ones
    have value := stored.symm.trans (congrArg BitVec.toNat ones)
    change biased = 2047 at value
    omega
  have notZero : BitVec.ofNat Format.binary64.exponentBits biased ≠ 0#_ := by
    intro none
    have value := stored.symm.trans (congrArg BitVec.toNat none)
    change biased = 0 at value
    omega
  rw [unpack]
  simp only [unpackExponent_packComponents, unpackMantissa_packComponents,
    unpackSign_packComponents, Sign.ofBitVec_toBitVec, if_neg notOnes, if_neg notZero, stored,
    toNat_implicit full below]
  rfl

theorem unpack_subnormal {mantissa : Nat} (positive : 0 < mantissa) (short : mantissa < 2 ^ 52)
    (sign : Sign) :
    unpack Format.binary64 (packComponents _ sign 0#_ (BitVec.ofNat _ mantissa)) =
      .finite sign mantissa (-1074) positive := by
  have stored : (BitVec.ofNat Format.binary64.mantissaBitsWithoutImplicit mantissa).toNat =
      mantissa := by
    rw [BitVec.toNat_ofNat]
    exact Nat.mod_eq_of_lt short
  have some : BitVec.ofNat Format.binary64.mantissaBitsWithoutImplicit mantissa ≠ 0#_ := by
    intro none
    have value := stored.symm.trans (congrArg BitVec.toNat none)
    change mantissa = 0 at value
    omega
  have finite : BitVec.ofNat Format.binary64.exponentBits 0 ≠ -1#_ := by decide
  rw [unpack]
  simp only [unpackExponent_packComponents, unpackMantissa_packComponents,
    unpackSign_packComponents, Sign.ofBitVec_toBitVec, if_neg finite, if_true, dif_neg some,
    stored]
  rfl

theorem unpack_pack {x : Binary} (canonical : x.Canonical) (range : x.power ≤ 971) (sign : Sign) :
    (Float.Model.pack (.finite sign x.mantissa x.power canonical.positive)).unpack =
      .finite sign x.mantissa x.power canonical.positive := by
  obtain ⟨mantissa, power⟩ := x
  obtain ⟨positive, below, least, leading⟩ := canonical
  dsimp only at positive below least leading range ⊢
  obtain ⟨biased, shifted⟩ : ∃ biased : Nat, (power + 1023 + 52).toNat = biased := ⟨_, rfl⟩
  have packed : UnpackedFloat.pack Format.binary64 (.finite sign mantissa power positive) =
      if 2048 ≤ biased + 1 then packedInfinity _ sign
      else if mantissa.log2 + 1 = 53 then
        packComponents _ sign (BitVec.ofNat _ biased) (BitVec.ofNat _ mantissa)
      else packComponents _ sign 0#_ (BitVec.ofNat _ mantissa) := by
    rw [← shifted]
    rfl
  change unpack Format.binary64 (pack Format.binary64 _) = _
  rw [packed, if_neg (by omega)]
  by_cases full : 2 ^ 52 ≤ mantissa
  · have bits : mantissa.log2 = 52 := (Nat.log2_eq_iff positive.ne').mpr ⟨full, below⟩
    rw [if_pos (by omega), unpack_normal full below (by omega) (by omega)]
    congr 1
    omega
  · have least' : power = -1074 := leading.resolve_right full
    have short : mantissa.log2 < 52 := (Nat.log2_lt positive.ne').mpr (by omega)
    rw [if_neg (by omega), unpack_subnormal positive (by omega)]
    congr 1
    exact least'.symm

/-- What bits hold is in its canonical form. -/
theorem canonical_of_bits {bits : BitVec Format.binary64.numBits} {sign : Sign} {mantissa : Nat}
    {power : Int} {positive : 0 < mantissa}
    (held : unpack Format.binary64 bits = .finite sign mantissa power positive) :
    (Binary.mk mantissa power).Canonical ∧ power ≤ 971 := by
  have top := (unpackExponent bits).isLt
  have fraction := (unpackMantissa bits).isLt
  change (unpackExponent bits).toNat < 2048 at top
  change (unpackMantissa bits).toNat < 2 ^ 52 at fraction
  unfold unpack at held
  dsimp only at held
  split at held
  · split at held <;> cases held
  · next finite =>
      have below : (unpackExponent bits).toNat ≠ 2047 := by
        intro all
        exact finite (BitVec.eq_of_toNat_eq (all.trans rfl))
      split at held
      · next least =>
          split at held
          · cases held
          · have zero : (unpackExponent bits).toNat = 0 := by
              rw [least]
              rfl
            cases held
            have lowest : ((unpackExponent bits).toNat : Int) - (1023 + 52) + 1 = -1074 := by
              rw [zero]
              rfl
            refine ⟨⟨positive, ?_, lowest.ge, .inl lowest⟩, lowest.le.trans (by decide)⟩
            change (unpackMantissa bits).toNat < 2 ^ 53
            omega
      · next normal =>
          have some : (unpackExponent bits).toNat ≠ 0 := by
            intro none
            exact normal (BitVec.eq_of_toNat_eq (none.trans rfl))
          have implicit : (1#1 ++ unpackMantissa bits).toNat =
              2 ^ 52 + (unpackMantissa bits).toNat := by
            rw [BitVec.toNat_append, ← Nat.shiftLeft_add_eq_or_of_lt (BitVec.isLt _)]
            rfl
          cases held
          refine ⟨⟨positive, ?_, ?_, .inr ?_⟩, ?_⟩
          · change (1#1 ++ unpackMantissa bits).toNat < 2 ^ 53
            omega
          · change -1074 ≤ ((unpackExponent bits).toNat : Int) - (1023 + 52)
            omega
          · change 2 ^ 52 ≤ (1#1 ++ unpackMantissa bits).toNat
            omega
          · change ((unpackExponent bits).toNat : Int) - (1023 + 52) ≤ 971
            omega

theorem canonical_of_unpack {x : Float.Model} {sign : Sign} {mantissa : Nat} {power : Int}
    {positive : 0 < mantissa} (held : x.unpack = .finite sign mantissa power positive) :
    (Binary.mk mantissa power).Canonical ∧ power ≤ 971 :=
  canonical_of_bits held

section

variable {x : Binary} {sign sign' : Sign} {mantissa mantissa' : Nat} {power power' : Int}
  {positive : 0 < mantissa} {positive' : 0 < mantissa'}

theorem mul_of_rounds (canonical : x.Canonical)
    (rounds : x.Rounds ((mantissa * 2 ^ power) * (mantissa' * 2 ^ power')))
    (long : 2 ^ 52 ≤ mantissa * mantissa') :
    UnpackedFloat.mul Format.binary64 (.finite sign mantissa power positive)
        (.finite sign' mantissa' power' positive') =
      .finite (sign * sign') x.mantissa x.power canonical.positive := by
  have product : (mantissa * 2 ^ power : ℚ) * (mantissa' * 2 ^ power') / 2 ^ (power + power') =
      (mantissa * mantissa' : Nat) := by
    rw [zpow_add₀ two_ne_zero]
    push_cast
    field_simp
  have bits : 52 ≤ (mantissa * mantissa').log2 :=
    (Nat.le_log2 (Nat.mul_pos positive positive').ne').mpr long
  refine roundWithAccuracy_of_rounds canonical rounds ?_ (by omega) _
  rw [product]
  exact fits_exact _

/-- A dividend is moved to the left until the quotient has bits enough. -/
theorem long_quotient {shift : Nat} (positive : 0 < mantissa) (positive' : 0 < mantissa')
    (room : 53 + mantissa'.log2 ≤ mantissa.log2 + shift) :
    2 ^ 52 ≤ (mantissa <<< shift) / mantissa' := by
  rw [Nat.le_div_iff_mul_le positive', Nat.shiftLeft_eq]
  calc 2 ^ 52 * mantissa' ≤ 2 ^ 52 * 2 ^ (mantissa'.log2 + 1) :=
        Nat.mul_le_mul_left _ Nat.lt_log2_self.le
    _ = 2 ^ (53 + mantissa'.log2) := by
        rw [← Nat.pow_add]
        congr 1
        omega
    _ ≤ 2 ^ (mantissa.log2 + shift) := Nat.pow_le_pow_right (by decide) room
    _ = 2 ^ mantissa.log2 * 2 ^ shift := Nat.pow_add ..
    _ ≤ mantissa * 2 ^ shift := Nat.mul_le_mul_right _ (Nat.log2_self_le positive.ne')

theorem div_of_rounds (canonical : x.Canonical)
    (rounds : x.Rounds ((mantissa * 2 ^ power) / (mantissa' * 2 ^ power'))) :
    UnpackedFloat.div Format.binary64 (.finite sign mantissa power positive)
        (.finite sign' mantissa' power' positive') =
      .finite (sign / sign') x.mantissa x.power canonical.positive := by
  obtain ⟨target, aim⟩ : ∃ target, min (power - power') (max ((mantissa.log2 : Int) + 1 + power -
      ((mantissa'.log2 : Int) + 1 + power') - 53) (-1074)) = target := ⟨_, rfl⟩
  obtain ⟨shift, moved⟩ : ∃ shift, (power - power' - target).toNat = shift := ⟨_, rfl⟩
  have unfolded : UnpackedFloat.div Format.binary64 (.finite sign mantissa power positive)
      (.finite sign' mantissa' power' positive') =
      roundWithAccuracy Format.binary64 (sign / sign') ((mantissa <<< shift) / mantissa') target
        (accuracyOfFraction ((mantissa <<< shift) % mantissa') mantissa') := by
    rw [← moved, ← aim]
    rfl
  have quotient : (mantissa * 2 ^ power : ℚ) / (mantissa' * 2 ^ power') / 2 ^ target =
      (mantissa <<< shift : Nat) / mantissa' := by
    have exponent : power - power' = target + shift := by omega
    have split : (2 : ℚ) ^ power = 2 ^ power' * (2 ^ target * 2 ^ shift) := by
      rw [← zpow_natCast 2 shift, ← zpow_add₀ two_ne_zero, ← zpow_add₀ two_ne_zero]
      congr 1
      omega
    rw [split, Nat.shiftLeft_eq]
    push_cast
    field_simp
  rw [unfolded]
  refine roundWithAccuracy_of_rounds canonical rounds ?_ ?_ _
  · rw [quotient]
    exact fits_division _ positive'
  · by_cases least : target ≤ -1074
    · omega
    · have long : 2 ^ 52 ≤ (mantissa <<< shift) / mantissa' :=
        long_quotient positive positive' (by omega)
      have bits := (Nat.le_log2 (Nat.ne_of_gt (Nat.lt_of_lt_of_le (by decide) long))).mpr long
      omega

end

namespace Binary

theorem Rounds.positive {x : Binary} {v : ℚ} (canonical : x.Canonical) (rounds : x.Rounds v) :
    2 ^ (-1075 : Int) ≤ v := by
  have unit : (0 : ℚ) < 2 ^ x.power := by positivity
  have one : (1 : ℚ) ≤ x.mantissa := by exact_mod_cast canonical.positive
  have half : (1 : ℚ) / 2 ≤ v / 2 ^ x.power := by linarith [rounds.nearest.above]
  rw [le_div_iff₀ unit] at half
  have least : (2 : ℚ) ^ (-1074 : Int) ≤ 2 ^ x.power :=
    zpow_le_zpow_right₀ one_le_two canonical.least
  have split : (2 : ℚ) ^ (-1075 : Int) = 1 / 2 * 2 ^ (-1074 : Int) := by
    rw [show (-1075 : Int) = -1 + -1074 by rfl, zpow_add₀ two_ne_zero]
    norm_num
  rw [split]
  linarith

def ofNat (whole : Nat) : Binary := ⟨whole <<< (52 - whole.log2), (whole.log2 : Int) - 52⟩

variable {whole : Nat}

theorem log2_le_of_small (small : whole < 2 ^ 53) : whole.log2 ≤ 52 := by
  by_cases zero : whole = 0
  · simp [zero]
  · have := (Nat.log2_lt zero).mpr small
    omega

theorem canonical_ofNat (positive : 0 < whole) (small : whole < 2 ^ 53) :
    (ofNat whole).Canonical := by
  have bits := log2_le_of_small small
  have low : 2 ^ 52 ≤ whole <<< (52 - whole.log2) := by
    rw [Nat.shiftLeft_eq]
    calc 2 ^ 52 = 2 ^ whole.log2 * 2 ^ (52 - whole.log2) := by
          rw [← Nat.pow_add]
          congr 1
          omega
      _ ≤ whole * 2 ^ (52 - whole.log2) :=
          Nat.mul_le_mul_right _ (Nat.log2_self_le positive.ne')
  refine ⟨by change 0 < whole <<< (52 - whole.log2); omega, ?_, ?_, .inr low⟩
  · change whole <<< (52 - whole.log2) < 2 ^ 53
    rw [Nat.shiftLeft_eq]
    calc whole * 2 ^ (52 - whole.log2) < 2 ^ (whole.log2 + 1) * 2 ^ (52 - whole.log2) :=
          Nat.mul_lt_mul_of_pos_right Nat.lt_log2_self (Nat.two_pow_pos _)
      _ = 2 ^ 53 := by
          rw [← Nat.pow_add]
          congr 1
          omega
  · change -1074 ≤ (whole.log2 : Int) - 52
    omega

theorem value_ofNat (small : whole < 2 ^ 53) : (ofNat whole).value = whole := by
  have bits := log2_le_of_small small
  have power : (whole.log2 : Int) - 52 = -((52 - whole.log2 : Nat) : Int) := by omega
  rw [value, ofNat, Nat.shiftLeft_eq, power, zpow_neg, zpow_natCast]
  push_cast
  field_simp

theorem power_ofNat (small : whole < 2 ^ 53) : (ofNat whole).power ≤ 971 := by
  have bits := log2_le_of_small small
  change (whole.log2 : Int) - 52 ≤ 971
  omega

end Binary

theorem roundWithAccuracy_canonical {x : Binary} (canonical : x.Canonical) (sign : Sign) :
    roundWithAccuracy Format.binary64 sign x.mantissa x.power .exact =
      .finite sign x.mantissa x.power canonical.positive := by
  have same : x.value / 2 ^ x.power = x.mantissa := by
    rw [Binary.value]
    field_simp
  refine roundWithAccuracy_of_rounds canonical x.rounds_value ?_ ?_ sign
  · rw [same]
    exact fits_exact _
  · obtain least | full := canonical.leading
    · omega
    · have bits := (Nat.le_log2 canonical.positive.ne').mpr full
      omega

theorem ofNat_eq {whole : Nat} (positive : 0 < whole) (small : whole < 2 ^ 53) :
    UnpackedFloat.ofNat Format.binary64 whole =
      .finite .positive (Binary.ofNat whole).mantissa (Binary.ofNat whole).power
        (Binary.canonical_ofNat positive small).positive := by
  have bits := Binary.log2_le_of_small small
  have left : (0 - max ((whole.log2 : Int) + 1 + 0 - 53) (-1074)).toNat = 52 - whole.log2 := by
    omega
  have above : compare (whole : Int) 0 = .gt := by
    rw [Int.compare_eq_gt]
    omega
  have unfolded : UnpackedFloat.ofNat Format.binary64 whole =
      roundWithAccuracy Format.binary64 .positive
        (whole <<< (0 - max ((whole.log2 : Int) + 1 + 0 - 53) (-1074)).toNat)
        (0 - ((0 - max ((whole.log2 : Int) + 1 + 0 - 53) (-1074)).toNat : Int)) .exact := by
    change UnpackedFloat.normalize Format.binary64 whole 0 .positive = _
    rw [UnpackedFloat.normalize, above]
    rfl
  have power : (0 : Int) - ((52 - whole.log2 : Nat) : Int) = (Binary.ofNat whole).power := by
    change _ = (whole.log2 : Int) - 52
    omega
  rw [unfolded, left, power]
  exact roundWithAccuracy_canonical (Binary.canonical_ofNat positive small) .positive

theorem unpack_ofUInt64 {whole : Nat} (positive : 0 < whole) (small : whole < 2 ^ 53) :
    whole.toUInt64.toFloat.toModel.unpack =
      .finite .positive (Binary.ofNat whole).mantissa (Binary.ofNat whole).power
        (Binary.canonical_ofNat positive small).positive := by
  have same : whole.toUInt64.toNat = whole := Nat.mod_eq_of_lt (by omega)
  change (Float.Model.pack (UnpackedFloat.ofNat Format.binary64 whole.toUInt64.toNat)).unpack = _
  rw [same, ofNat_eq positive small]
  exact unpack_pack (Binary.canonical_ofNat positive small) (Binary.power_ofNat small) .positive

theorem zpow_eq_div (base : ℚ) (some : base ≠ 0) (exponent : Int) :
    base ^ exponent = base ^ exponent.toNat / base ^ (-exponent).toNat := by
  have split : exponent = (exponent.toNat : Int) - (-exponent).toNat := by omega
  conv_lhs => rw [split]
  rw [zpow_sub₀ some, zpow_natCast, zpow_natCast]

namespace Decimal

def value (decimal : Decimal) : ℚ := decimal.digits * 10 ^ decimal.exponent

end Decimal

def holdsPower (exponent : Nat) : UnpackedFloat → Bool
  | .finite .positive mantissa power _ =>
      mantissa * 2 ^ power.toNat == 10 ^ exponent * 2 ^ (-power).toNat
  | _ => false

theorem powers_held : ∀ exponent (inside : exponent < Float.exactlyRepresentablePowersOfTen.size),
    holdsPower exponent Float.exactlyRepresentablePowersOfTen[exponent].toModel.unpack = true := by
  decide +kernel

theorem value_of_holdsPower {exponent : Nat} {number : UnpackedFloat}
    (held : holdsPower exponent number = true) :
    ∃ (mantissa : Nat) (power : Int) (positive : 0 < mantissa),
      number = .finite .positive mantissa power positive ∧
        (mantissa : ℚ) * 2 ^ power = 10 ^ exponent := by
  unfold holdsPower at held
  split at held
  · next mantissa power positive =>
      have same : mantissa * 2 ^ power.toNat = 10 ^ exponent * 2 ^ (-power).toNat :=
        eq_of_beq held
      refine ⟨mantissa, power, positive, rfl, ?_⟩
      rw [zpow_eq_div 2 two_ne_zero, ← mul_div_assoc, div_eq_iff (by positivity)]
      exact_mod_cast same
  · cases held

section

variable {x : Binary} {digits exponent : Nat}

/-- A short decimal with few zeros is a product or a quotient of two exact numbers. -/
theorem ofScientific_short (canonical : x.Canonical) (small : digits < 2 ^ 53)
    (few : exponent ≤ 22) (negative : Bool)
    (rounds : x.Rounds
      (if negative then (digits : ℚ) / 10 ^ exponent else digits * 10 ^ exponent)) :
    (Float.ofScientific digits negative exponent).toModel =
      Float.Model.pack (.finite .positive x.mantissa x.power canonical.positive) := by
  have positive : 0 < digits := by
    rw [Nat.pos_iff_ne_zero]
    rintro rfl
    have reached := rounds.positive canonical
    have above : (0 : ℚ) < 2 ^ (-1075 : Int) := by positivity
    simp only [Nat.cast_zero, zero_div, zero_mul, ite_self] at reached
    linarith
  obtain ⟨mantissa, power, positive', held, same⟩ :=
    value_of_holdsPower (powers_held exponent (by change exponent < 23; omega))
  have whole := Binary.value_ofNat small
  rw [Binary.value] at whole
  rw [Float.ofScientific, dif_pos ⟨small, few⟩]
  cases negative with
  | true =>
      rw [if_pos rfl, ← same, ← whole] at rounds
      rw [if_pos rfl]
      change Float.Model.pack (UnpackedFloat.div Format.binary64 _ _) = _
      rw [unpack_ofUInt64 positive small, held, div_of_rounds canonical rounds]
      rfl
  | false =>
      rw [if_neg Bool.false_ne_true, ← same, ← whole] at rounds
      rw [if_neg Bool.false_ne_true]
      have long : 2 ^ 52 ≤ (Binary.ofNat digits).mantissa * mantissa := by
        have full := (Binary.canonical_ofNat positive small).leading
        have wide : (Binary.ofNat digits).power ≠ -1074 := by
          change (digits.log2 : Int) - 52 ≠ -1074
          omega
        exact (full.resolve_left wide).trans (Nat.le_mul_of_pos_right _ positive')
      change Float.Model.pack (UnpackedFloat.mul Format.binary64 _ _) = _
      rw [unpack_ofUInt64 positive small, held, mul_of_rounds canonical rounds long]
      rfl

end

section

variable {x : Binary} {digits : Nat} {exponent : Int}

theorem exponent_le_of_rounds (canonical : x.Canonical) (range : x.power ≤ 971)
    (positive : 0 < digits) (rounds : x.Rounds (digits * 10 ^ exponent)) : exponent ≤ 2048 := by
  by_contra huge
  have one : (1 : ℚ) ≤ digits := by exact_mod_cast positive
  have grown : (2 : ℚ) ^ exponent ≤ 10 ^ exponent :=
    zpow_le_zpow_left₀ (by omega) (by norm_num) (by norm_num)
  have power : (10 : ℚ) ^ exponent ≤ digits * 10 ^ exponent :=
    le_mul_of_one_le_left (by positivity) one
  have := lt_of_two_zpow_lt ((grown.trans power).trans_lt (rounds.below canonical))
  omega

theorem le_exponent_of_rounds (canonical : x.Canonical)
    (rounds : x.Rounds (digits * 10 ^ exponent)) :
    -(2048 + (digits.log2 : Int)) ≤ exponent := by
  by_contra tiny
  have shrunk : (10 : ℚ) ^ exponent ≤ 2 ^ exponent := by
    rw [← neg_neg exponent, zpow_neg, zpow_neg 2]
    exact inv_anti₀ (by positivity) (zpow_le_zpow_left₀ (by omega) (by norm_num) (by norm_num))
  have bits : (digits : ℚ) < 2 ^ (digits.log2 + 1) := by exact_mod_cast Nat.lt_log2_self
  have product : (digits : ℚ) * 10 ^ exponent < 2 ^ ((digits.log2 : Int) + 1 + exponent) := by
    rw [zpow_add₀ two_ne_zero]
    exact mul_lt_mul (by exact_mod_cast bits) shrunk (by positivity) (by positivity)
  have := lt_of_two_zpow_lt ((rounds.positive canonical).trans_lt product)
  omega

theorem ofScientific_long (canonical : x.Canonical) (range : x.power ≤ 971)
    (rounds : x.Rounds (digits * 10 ^ exponent)) :
    UnpackedFloat.ofScientific Format.binary64 digits exponent =
      .finite .positive x.mantissa x.power canonical.positive := by
  have positive : 0 < digits := by
    rw [Nat.pos_iff_ne_zero]
    rintro rfl
    have reached := rounds.positive canonical
    have above : (0 : ℚ) < 2 ^ (-1075 : Int) := by positivity
    simp only [Nat.cast_zero, zero_mul] at reached
    linarith
  have high : ¬ exponent > 2 ^ Format.binary64.exponentBits :=
    not_lt.mpr (exponent_le_of_rounds canonical range positive rounds)
  have low : ¬ exponent < -((2 ^ Format.binary64.exponentBits : Int) + (digits.log2 : Int)) :=
    not_lt.mpr (le_exponent_of_rounds canonical rounds)
  rw [UnpackedFloat.ofScientific, dif_neg positive.ne', if_neg high, if_neg low]
  split
  · next whole =>
      have moved : ((digits <<< Format.binary64.mantissaBits : Nat) : ℚ) *
          2 ^ (-Format.binary64.mantissaBits : Int) * ((10 ^ exponent.toNat : Nat) * 2 ^ (0 : Int)) =
          digits * 10 ^ exponent := by
        rw [zpow_eq_div 10 (by norm_num), zpow_neg, zpow_natCast, Nat.shiftLeft_eq,
          show (-exponent).toNat = 0 by omega]
        push_cast
        field_simp
      have long : 2 ^ 52 ≤ digits <<< Format.binary64.mantissaBits * 10 ^ exponent.toNat := by
        rw [Nat.shiftLeft_eq]
        calc 2 ^ 52 ≤ 1 * 2 ^ Format.binary64.mantissaBits * 1 := by decide
          _ ≤ digits * 2 ^ Format.binary64.mantissaBits * 10 ^ exponent.toNat :=
              Nat.mul_le_mul (Nat.mul_le_mul_right _ positive) (Nat.pow_pos (by decide))
      rw [← moved] at rounds
      exact (mul_of_rounds canonical rounds long).trans rfl
  · next fractional =>
      have quotient : ((digits : Nat) : ℚ) * 2 ^ (0 : Int) /
          ((10 ^ (-exponent).toNat : Nat) * 2 ^ (0 : Int)) = digits * 10 ^ exponent := by
        rw [zpow_eq_div 10 (by norm_num), show exponent.toNat = 0 by omega]
        push_cast
        field_simp
      rw [← quotient] at rounds
      exact (div_of_rounds canonical rounds).trans rfl

end

/-- A decimal is converted to the floating-point number in whose interval it lies. -/
theorem Decimal.toFloat_of_rounds {x : Binary} {decimal : Decimal} (canonical : x.Canonical)
    (range : x.power ≤ 971) (rounds : x.Rounds decimal.value) :
    decimal.toFloat.toModel =
      Float.Model.pack (.finite .positive x.mantissa x.power canonical.positive) := by
  obtain ⟨digits, exponent⟩ := decimal
  change (Float.ofScientific digits (exponent < 0) exponent.natAbs).toModel = _
  change x.Rounds (digits * 10 ^ exponent) at rounds
  by_cases short : digits < 2 ^ 53 ∧ exponent.natAbs ≤ 22
  · refine ofScientific_short canonical short.1 short.2 _ ?_
    by_cases negative : exponent < 0
    · have inverse : (10 : ℚ) ^ exponent = 1 / 10 ^ exponent.natAbs := by
        rw [zpow_eq_div 10 (by norm_num), show exponent.toNat = 0 by omega,
          show (-exponent).toNat = exponent.natAbs by omega, pow_zero]
      rw [inverse, mul_one_div] at rounds
      simpa only [negative, decide_true, if_true] using rounds
    · have direct : (10 : ℚ) ^ exponent = 10 ^ exponent.natAbs := by
        rw [zpow_eq_div 10 (by norm_num), show (-exponent).toNat = 0 by omega,
          show exponent.toNat = exponent.natAbs by omega, pow_zero, div_one]
      rw [direct] at rounds
      simpa only [negative, decide_false, Bool.false_eq_true, if_false] using rounds
  · have signed : (if decide (exponent < 0) = true then Int.negOfNat exponent.natAbs
        else Int.ofNat exponent.natAbs) = exponent := by
      by_cases negative : exponent < 0
      · rw [if_pos (decide_eq_true negative), Int.negOfNat_eq, Int.ofNat_eq_natCast]
        omega
      · rw [if_neg (by simpa using negative), Int.ofNat_eq_natCast]
        omega
    rw [Float.ofScientific, dif_neg short]
    change Float.Model.pack (UnpackedFloat.ofScientific Format.binary64 digits _) = _
    rw [signed, ofScientific_long canonical range rounds]

theorem Decimal.unpack_toFloat {x : Binary} {decimal : Decimal} (canonical : x.Canonical)
    (range : x.power ≤ 971) (rounds : x.Rounds decimal.value) :
    decimal.toFloat.toModel.unpack =
      .finite .positive x.mantissa x.power canonical.positive := by
  rw [toFloat_of_rounds canonical range rounds]
  exact unpack_pack canonical range .positive

inductive Unsigned : UnpackedFloat → Prop where
  | zero : Unsigned (.zero .positive)
  | finite {mantissa : Nat} {power : Int} {positive : 0 < mantissa} :
      Unsigned (.finite .positive mantissa power positive)
  | infinity : Unsigned (.infinity .positive)

theorem unsigned_components {exponent : BitVec Format.binary64.exponentBits}
    (below : exponent ≠ -1#_) (fraction : BitVec Format.binary64.mantissaBitsWithoutImplicit) :
    Unsigned (unpack Format.binary64 (packComponents _ .positive exponent fraction)) := by
  rw [unpack]
  simp only [unpackExponent_packComponents, unpackMantissa_packComponents,
    unpackSign_packComponents, Sign.ofBitVec_toBitVec, if_neg below]
  split
  · split
    · exact .zero
    · exact .finite
  · exact .finite

theorem Unsigned.unpack_pack {number : UnpackedFloat} (unsigned : Unsigned number) :
    Unsigned (Float.Model.pack number).unpack := by
  change Unsigned (unpack Format.binary64 (pack Format.binary64 number))
  cases unsigned with
  | zero => exact unsigned_components (by decide) _
  | infinity => exact .infinity
  | finite =>
      rw [pack]
      split
      · exact .infinity
      · next room =>
          split
          · refine unsigned_components (fun ones => room ?_) _
            have value := congrArg BitVec.toNat ones
            rw [BitVec.toNat_ofNat] at value
            have small := Nat.mod_le _ (2 ^ Format.binary64.exponentBits) |>.trans_eq' value
            change 2047 ≤ _ at small
            change 2048 ≤ _
            omega
          · exact unsigned_components (by decide) _

theorem unsigned_roundWithAccuracy (mantissa : Nat) (power : Int) (accuracy : Accuracy) :
    Unsigned (roundWithAccuracy Format.binary64 .positive mantissa power accuracy) := by
  rw [roundWithAccuracy]
  dsimp only
  split
  · exact .zero
  · exact .finite

section

variable {number : UnpackedFloat} {mantissa : Nat} {power : Int} {positive : 0 < mantissa}

theorem Unsigned.mul (unsigned : Unsigned number) :
    Unsigned (UnpackedFloat.mul Format.binary64 number
      (.finite .positive mantissa power positive)) := by
  cases unsigned with
  | zero => exact .zero
  | infinity => exact .infinity
  | finite => exact unsigned_roundWithAccuracy ..

theorem Unsigned.div (unsigned : Unsigned number) :
    Unsigned (UnpackedFloat.div Format.binary64 number
      (.finite .positive mantissa power positive)) := by
  cases unsigned with
  | zero => exact .zero
  | infinity => exact .infinity
  | finite => exact unsigned_roundWithAccuracy ..

end

theorem unsigned_ofNat (whole : Nat) : Unsigned (UnpackedFloat.ofNat Format.binary64 whole) := by
  change Unsigned (UnpackedFloat.normalize Format.binary64 whole 0 .positive)
  rw [UnpackedFloat.normalize]
  split
  · next less =>
      rw [Int.compare_eq_lt] at less
      omega
  · exact .zero
  · exact unsigned_roundWithAccuracy ..

theorem unsigned_ofScientific (digits : Nat) (exponent : Int) :
    Unsigned (UnpackedFloat.ofScientific Format.binary64 digits exponent) := by
  rw [UnpackedFloat.ofScientific]
  split
  · exact .zero
  · split
    · exact .infinity
    · split
      · exact .zero
      · split
        · exact Unsigned.finite.mul
        · exact Unsigned.finite.div

theorem Decimal.unsigned_toFloat (decimal : Decimal) :
    Unsigned decimal.toFloat.toModel.unpack := by
  rw [toFloat, Float.ofScientific]
  split
  · next short =>
      obtain ⟨mantissa, power, positive, held, -⟩ :=
        value_of_holdsPower (powers_held decimal.exponent.natAbs (by
          change decimal.exponent.natAbs < 23
          omega))
      have whole : Unsigned decimal.digits.toUInt64.toFloat.toModel.unpack :=
        (unsigned_ofNat _).unpack_pack
      dsimp only
      split
      · change Unsigned (Float.Model.pack (UnpackedFloat.div Format.binary64 _ _)).unpack
        rw [held]
        exact whole.div.unpack_pack
      · change Unsigned (Float.Model.pack (UnpackedFloat.mul Format.binary64 _ _)).unpack
        rw [held]
        exact whole.mul.unpack_pack
  · exact (unsigned_ofScientific _ _).unpack_pack

end ReactiveView.Number
