import Mathlib.Algebra.Order.Field.Power
import Mathlib.Data.Nat.Log
import Mathlib.Data.Rat.Cast.Order
import Mathlib.Tactic.FieldSimp
import Mathlib.Tactic.Linarith
import Mathlib.Tactic.NormNum
import Mathlib.Tactic.Positivity
import Mathlib.Tactic.Ring
import ReactiveView.Number.Shortest

/-!
# Rounding to the nearest

A mantissa with a round bit and a sticky bit tells of a rational number which whole number is
the nearest. Shifting it to the right keeps what it tells, so rounding takes a rational number
to the floating-point number in whose interval it lies, with one more shift where the mantissa
has become a power of two.
-/

namespace ReactiveView.Number

set_option autoImplicit false

open Float.Model (Format)
open Float.Model.UnpackedFloat

/-- The whole number is at most a half away, and even if it is a half away. -/
structure Nearest (r : ℚ) (n : Nat) : Prop where
  above : (n : ℚ) - 1 / 2 ≤ r
  below : r ≤ (n : ℚ) + 1 / 2
  even : r = (n : ℚ) - 1 / 2 ∨ r = (n : ℚ) + 1 / 2 → n % 2 = 0

theorem nearest_self (n : Nat) : Nearest n n where
  above := by linarith
  below := by linarith
  even := by
    rintro (half | half)
    · linarith
    · linarith

theorem Nearest.mono {r s : ℚ} {n m : Nat} (first : Nearest r n) (second : Nearest s m)
    (ordered : r ≤ s) : n ≤ m := by
  by_contra less
  have next : m + 1 ≤ n := by omega
  have apart : (m : ℚ) + 1 ≤ n := by exact_mod_cast next
  have above := first.above
  have below := second.below
  -- Both are at their halves, so one of two neighbours would be odd and even.
  have touching : (n : ℚ) = m + 1 := by linarith
  have neighbours : n = m + 1 := by exact_mod_cast touching
  have even := first.even (.inl (by linarith))
  have even' := second.even (.inr (by linarith))
  omega

theorem Nearest.unique {r : ℚ} {n m : Nat} (first : Nearest r n) (second : Nearest r m) :
    n = m :=
  le_antisymm (first.mono second le_rfl) (second.mono first le_rfl)

/-- What the residual bits tell about the place of a rational number above the mantissa. -/
def Fits : ExtendedMantissa → ℚ → Prop
  | ⟨mantissa, false, false⟩, r => r = mantissa
  | ⟨mantissa, false, true⟩, r => (mantissa : ℚ) < r ∧ r < mantissa + 1 / 2
  | ⟨mantissa, true, false⟩, r => r = mantissa + 1 / 2
  | ⟨mantissa, true, true⟩, r => (mantissa : ℚ) + 1 / 2 < r ∧ r < mantissa + 1

theorem fits_exact (mantissa : Nat) :
    Fits (ExtendedMantissa.ofMantissaAndAccuracy mantissa .exact) mantissa := rfl

theorem Fits.floor {extended : ExtendedMantissa} {r : ℚ} (fits : Fits extended r) :
    (extended.mantissa : ℚ) ≤ r ∧ r < extended.mantissa + 1 := by
  obtain ⟨mantissa, round, sticky⟩ := extended
  cases round <;> cases sticky <;> simp only [Fits] at fits ⊢ <;> constructor <;> linarith

theorem Fits.nearest {extended : ExtendedMantissa} {r : ℚ} (fits : Fits extended r) :
    Nearest r extended.roundedMantissa := by
  obtain ⟨mantissa, round, sticky⟩ := extended
  cases round <;> cases sticky <;> simp only [Fits] at fits
  · subst fits
    exact nearest_self mantissa
  · change Nearest r mantissa
    exact ⟨by linarith, by linarith, by rintro (half | half) <;> linarith⟩
  · change Nearest r (mantissa + mantissa % 2)
    obtain even | odd := Nat.mod_two_eq_zero_or_one mantissa
    · rw [even]
      exact ⟨by push_cast; linarith, by push_cast; linarith, fun _ => even⟩
    · rw [odd]
      exact ⟨by push_cast; linarith, by push_cast; linarith, fun _ => by omega⟩
  · change Nearest r (mantissa + 1)
    refine ⟨by push_cast; linarith, by push_cast; linarith, ?_⟩
    push_cast
    rintro (half | half) <;> linarith

theorem Fits.shiftRightOne {extended : ExtendedMantissa} {r : ℚ} (fits : Fits extended r) :
    Fits extended.shiftRightOne (r / 2) := by
  obtain ⟨mantissa, round, sticky⟩ := extended
  have split : (mantissa : ℚ) = 2 * (mantissa / 2 : Nat) + (mantissa % 2 : Nat) := by
    exact_mod_cast (Nat.div_add_mod mantissa 2).symm
  obtain even | odd := Nat.mod_two_eq_zero_or_one mantissa
  · rw [even, Nat.cast_zero, add_zero] at split
    cases round <;> cases sticky <;>
      simp only [Fits, ExtendedMantissa.shiftRightOne, even, bne_self_eq_false, Bool.or_false,
        Bool.or_true] at fits ⊢ <;>
      first | linarith | constructor <;> linarith
  · rw [odd, Nat.cast_one] at split
    cases round <;> cases sticky <;>
      simp only [Fits, ExtendedMantissa.shiftRightOne, odd, Nat.reduceBNe, Bool.or_false,
        Bool.or_true] at fits ⊢ <;>
      first | linarith | constructor <;> linarith

theorem Fits.shiftRight {extended : ExtendedMantissa} {r : ℚ} (fits : Fits extended r)
    (count : Nat) : Fits (extended >>> count) (r / 2 ^ count) := by
  induction count with
  | zero =>
      rw [pow_zero, div_one]
      exact fits
  | succ count induction =>
      change Fits (extended >>> count).shiftRightOne _
      rw [pow_succ, ← div_div]
      exact induction.shiftRightOne

theorem fits_division (dividend : Nat) {divisor : Nat} (positive : 0 < divisor) :
    Fits (ExtendedMantissa.ofMantissaAndAccuracy (dividend / divisor)
      (accuracyOfFraction (dividend % divisor) divisor)) (dividend / divisor) := by
  have above : (0 : ℚ) < divisor := by exact_mod_cast positive
  have split : (dividend : ℚ) = divisor * (dividend / divisor : Nat) +
      (dividend % divisor : Nat) := by
    exact_mod_cast (Nat.div_add_mod dividend divisor).symm
  have small : ((dividend % divisor : Nat) : ℚ) < divisor := by
    exact_mod_cast Nat.mod_lt dividend positive
  have quotient : (dividend : ℚ) / divisor = (dividend / divisor : Nat) +
      (dividend % divisor : Nat) / divisor := by
    rw [split]
    field_simp
  rw [quotient, accuracyOfFraction]
  generalize dividend % divisor = rest at small
  split
  · next zero =>
      rw [zero]
      simp [Fits, ExtendedMantissa.ofMantissaAndAccuracy]
  · next some =>
      have some' : (0 : ℚ) < rest := by exact_mod_cast Nat.pos_of_ne_zero some
      have fraction : 0 < (rest : ℚ) / divisor := by positivity
      have below : (rest : ℚ) / divisor < 1 := by rwa [div_lt_one above]
      cases order : compare (2 * rest) divisor with
      | lt =>
          have half : (2 * rest : ℚ) < divisor := by exact_mod_cast Nat.compare_eq_lt.mp order
          have less : (rest : ℚ) / divisor < 1 / 2 := by
            rw [div_lt_iff₀ above]
            linarith
          exact ⟨by linarith, by linarith⟩
      | eq =>
          have half : (2 * rest : ℚ) = divisor := by exact_mod_cast Nat.compare_eq_eq.mp order
          have same : (rest : ℚ) / divisor = 1 / 2 := by
            rw [div_eq_iff above.ne']
            linarith
          change _ = _
          rw [same]
      | gt =>
          have half : (divisor : ℚ) < 2 * rest := by exact_mod_cast Nat.compare_eq_gt.mp order
          have more : 1 / 2 < (rest : ℚ) / divisor := by
            rw [lt_div_iff₀ above]
            linarith
          exact ⟨by linarith, by linarith⟩

namespace Binary

/-- The bits of the mantissa are all used, unless the power is the least one. -/
structure Canonical (x : Binary) : Prop where
  positive : 0 < x.mantissa
  below : x.mantissa < 2 ^ 53
  least : -1074 ≤ x.power
  leading : x.power = -1074 ∨ 2 ^ 52 ≤ x.mantissa

def value (x : Binary) : ℚ := x.mantissa * 2 ^ x.power

/-- The reals that round to the number. Below a power of two they are half as wide. -/
structure Rounds (x : Binary) (v : ℚ) : Prop where
  nearest : Nearest (v / 2 ^ x.power) x.mantissa
  narrow : x.narrowBelow = true → (x.mantissa : ℚ) - 1 / 4 ≤ v / 2 ^ x.power

theorem rounds_value (x : Binary) : x.Rounds x.value := by
  have same : x.value / 2 ^ x.power = x.mantissa := by
    rw [value]
    field_simp
  exact ⟨by rw [same]; exact nearest_self _, fun _ => by rw [same]; linarith⟩

theorem Rounds.below {x : Binary} {v : ℚ} (rounds : x.Rounds v) (canonical : x.Canonical) :
    v < 2 ^ (53 + x.power) := by
  have room : (x.mantissa : ℚ) + 1 ≤ 2 ^ 53 := by exact_mod_cast canonical.below
  have near := rounds.nearest.below
  have unit : (0 : ℚ) < 2 ^ x.power := by positivity
  rw [zpow_add₀ two_ne_zero, ← div_lt_iff₀ unit]
  norm_num at room near ⊢
  linarith

/-- What rounds to the number is in its binade, or just under the power of two that it is. -/
theorem Rounds.binade {x : Binary} {v : ℚ} (rounds : x.Rounds v) (canonical : x.Canonical)
    (wide : -1074 < x.power) :
    2 ^ (52 + x.power) ≤ v ∨
      x.mantissa = 2 ^ 52 ∧ (2 ^ 52 - 1 / 4 ≤ v / 2 ^ x.power ∧ v / 2 ^ x.power < 2 ^ 52) := by
  have leading : 2 ^ 52 ≤ x.mantissa := canonical.leading.resolve_left (by omega)
  have unit : (0 : ℚ) < 2 ^ x.power := by positivity
  by_cases reached : 2 ^ 52 ≤ v / 2 ^ x.power
  · left
    rw [zpow_add₀ two_ne_zero, ← le_div_iff₀ unit]
    exact_mod_cast reached
  · right
    have short : v / 2 ^ x.power < 2 ^ 52 := lt_of_not_ge reached
    have near := rounds.nearest.above
    have touching : x.mantissa = 2 ^ 52 := by
      by_contra other
      have more : 2 ^ 52 + 1 ≤ x.mantissa := by omega
      have more' : (2 : ℚ) ^ 52 + 1 ≤ x.mantissa := by exact_mod_cast more
      linarith
    have narrow := rounds.narrow (by simp [narrowBelow, touching, wide])
    rw [touching] at narrow
    push_cast at narrow
    exact ⟨touching, narrow, short⟩

end Binary

section

variable {mantissa : Nat} {exponent : Int} {accuracy : Accuracy} {v : ℚ}

/-- The bits of a mantissa tell between which powers of two the number lies. -/
theorem between_powers (low : (mantissa : ℚ) ≤ v / 2 ^ exponent)
    (high : v / 2 ^ exponent < mantissa + 1) :
    (mantissa ≠ 0 → 2 ^ ((mantissa.log2 : Int) + exponent) ≤ v) ∧
      v < 2 ^ ((mantissa.log2 : Int) + 1 + exponent) := by
  have unit : (0 : ℚ) < 2 ^ exponent := by positivity
  constructor
  · intro some
    have bits : ((2 ^ mantissa.log2 : Nat) : ℚ) ≤ mantissa := by
      exact_mod_cast Nat.log2_self_le some
    rw [zpow_add₀ two_ne_zero, ← le_div_iff₀ unit, zpow_natCast]
    push_cast at bits
    exact bits.trans low
  · have bits : ((mantissa + 1 : Nat) : ℚ) ≤ (2 ^ (mantissa.log2 + 1) : Nat) := by
      exact_mod_cast Nat.lt_log2_self
    rw [zpow_add₀ two_ne_zero, ← div_lt_iff₀ unit]
    push_cast at bits
    exact high.trans_le (by exact_mod_cast bits)

theorem lt_of_two_zpow_lt {left right : Int} (less : (2 : ℚ) ^ left < 2 ^ right) :
    left < right :=
  (zpow_lt_zpow_iff_right₀ one_lt_two).mp less

/-- The power that a mantissa is shifted to is that of the number it rounds to, or the one
below it when it rounds up to a power of two. -/
theorem target_of_rounds {x : Binary} (canonical : x.Canonical) (rounds : x.Rounds v)
    (low : (mantissa : ℚ) ≤ v / 2 ^ exponent) (high : v / 2 ^ exponent < mantissa + 1)
    (early : exponent ≤ max ((mantissa.log2 : Int) + 1 + exponent - 53) (-1074)) :
    max ((mantissa.log2 : Int) + 1 + exponent - 53) (-1074) = x.power ∨
      max ((mantissa.log2 : Int) + 1 + exponent - 53) (-1074) = x.power - 1 ∧
        x.mantissa = 2 ^ 52 ∧ 2 ^ 52 - 1 / 4 ≤ v / 2 ^ x.power ∧ v / 2 ^ x.power < 2 ^ 52 := by
  have least := canonical.least
  have unit : (0 : ℚ) < 2 ^ x.power := by positivity
  obtain ⟨reached, short⟩ := between_powers low high
  have blank : mantissa = 0 →
      max ((mantissa.log2 : Int) + 1 + exponent - 53) (-1074) = -1074 := by
    rintro rfl
    have none : (Nat.log2 0 : Int) = 0 := by simp
    omega
  have upper : max ((mantissa.log2 : Int) + 1 + exponent - 53) (-1074) ≤ x.power := by
    by_cases zero : mantissa = 0
    · rw [blank zero]
      exact least
    · have := lt_of_two_zpow_lt ((reached zero).trans_lt (rounds.below canonical))
      omega
  by_cases wide : -1074 < x.power
  · obtain full | ⟨touching, narrow, under⟩ := rounds.binade canonical wide
    · have := lt_of_two_zpow_lt (full.trans_lt short)
      omega
    · right
      refine ⟨?_, touching, narrow, under⟩
      have half : (2 : ℚ) ^ (51 + x.power) ≤ v := by
        rw [zpow_add₀ two_ne_zero, ← le_div_iff₀ unit]
        norm_num at narrow ⊢
        linarith
      have more := lt_of_two_zpow_lt (half.trans_lt short)
      have lower : max ((mantissa.log2 : Int) + 1 + exponent - 53) (-1074) ≤ x.power - 1 := by
        by_cases zero : mantissa = 0
        · rw [blank zero]
          omega
        · have bound : v < 2 ^ (52 + x.power) := by
            rw [zpow_add₀ two_ne_zero, ← div_lt_iff₀ unit]
            exact_mod_cast under
          have := lt_of_two_zpow_lt ((reached zero).trans_lt bound)
          omega
      omega
  · omega

theorem finite_eq (sign : Sign) {result : Nat} {power power' : Int} (same : mantissa = result)
    (same' : power = power') (positive : 0 < mantissa) (positive' : 0 < result) :
    Float.Model.UnpackedFloat.finite sign mantissa power positive =
      .finite sign result power' positive' := by
  subst same same'
  rfl

theorem roundWithAccuracy_eq (sign : Sign) {rounded : Nat} {target : Int}
    (first : (shiftToTargetExponent Format.binary64 mantissa exponent accuracy).1.roundedMantissa =
      rounded)
    (reached : (shiftToTargetExponent Format.binary64 mantissa exponent accuracy).2 = target)
    {result : Nat} {power : Int}
    (second : shiftToTargetExponent Format.binary64 rounded target .exact =
      (⟨result, false, false⟩, power))
    (positive : 0 < result) :
    roundWithAccuracy Format.binary64 sign mantissa exponent accuracy =
      .finite sign result power positive := by
  subst first reached
  have some : (shiftToTargetExponent Format.binary64
      (shiftToTargetExponent Format.binary64 mantissa exponent accuracy).1.roundedMantissa
      (shiftToTargetExponent Format.binary64 mantissa exponent accuracy).2
      .exact).1.mantissa ≠ 0 := by
    rw [second]
    exact positive.ne'
  rw [roundWithAccuracy]
  dsimp only
  rw [dif_neg some]
  exact finite_eq sign (by rw [second]) (by rw [second]) _ _

theorem shiftToTargetExponent_eq (mantissa : Nat) (exponent : Int) (accuracy : Accuracy) :
    shiftToTargetExponent Format.binary64 mantissa exponent accuracy =
      (ExtendedMantissa.ofMantissaAndAccuracy mantissa accuracy >>>
          (max ((mantissa.log2 : Int) + 1 + exponent - 53) (-1074) - exponent).toNat,
        exponent + (max ((mantissa.log2 : Int) + 1 + exponent - 53) (-1074) - exponent).toNat) :=
  rfl

theorem shift_kept (small : mantissa < 2 ^ 53) (least : -1074 ≤ exponent) :
    shiftToTargetExponent Format.binary64 mantissa exponent .exact =
      (⟨mantissa, false, false⟩, exponent) := by
  have bits : mantissa.log2 ≤ 52 := by
    by_cases zero : mantissa = 0
    · simp [zero]
    · have := (Nat.log2_lt zero).mpr small
      omega
  have still : (max ((mantissa.log2 : Int) + 1 + exponent - 53) (-1074) - exponent).toNat = 0 := by
    omega
  rw [shiftToTargetExponent_eq, still, Nat.cast_zero, add_zero]
  rfl

/-- A mantissa that has become a power of two gives up its last bit. -/
theorem shift_carried (least : -1074 ≤ exponent) :
    shiftToTargetExponent Format.binary64 (2 ^ 53) exponent .exact =
      (⟨2 ^ 52, false, false⟩, exponent + 1) := by
  have once : (max (((2 ^ 53 : Nat).log2 : Int) + 1 + exponent - 53) (-1074) - exponent).toNat =
      1 := by
    rw [Nat.log2_two_pow]
    omega
  rw [shiftToTargetExponent_eq, once, Nat.cast_one]
  rfl

theorem mantissa_ofMantissaAndAccuracy (mantissa : Nat) (accuracy : Accuracy) :
    (ExtendedMantissa.ofMantissaAndAccuracy mantissa accuracy).mantissa = mantissa := by
  cases accuracy with
  | exact => rfl
  | inexact order => cases order <;> rfl

/-- Rounding a rational number, told by a mantissa and its accuracy, gives the floating-point
number in whose interval it lies. -/
theorem roundWithAccuracy_of_rounds {x : Binary} (canonical : x.Canonical) (rounds : x.Rounds v)
    (fits : Fits (ExtendedMantissa.ofMantissaAndAccuracy mantissa accuracy) (v / 2 ^ exponent))
    (early : exponent ≤ max ((mantissa.log2 : Int) + 1 + exponent - 53) (-1074)) (sign : Sign) :
    roundWithAccuracy Format.binary64 sign mantissa exponent accuracy =
      .finite sign x.mantissa x.power canonical.positive := by
  obtain ⟨low, high⟩ := fits.floor
  rw [mantissa_ofMantissaAndAccuracy] at low high
  have target := target_of_rounds canonical rounds low high early
  have least := canonical.least
  have first := shiftToTargetExponent_eq mantissa exponent accuracy
  have wide : -1074 ≤ max ((mantissa.log2 : Int) + 1 + exponent - 53) (-1074) := le_max_right _ _
  generalize max ((mantissa.log2 : Int) + 1 + exponent - 53) (-1074) = goal
    at early target first wide
  have reached : (shiftToTargetExponent Format.binary64 mantissa exponent accuracy).2 = goal := by
    rw [first]
    change exponent + ((goal - exponent).toNat : Int) = goal
    omega
  have nearest : Nearest (v / 2 ^ goal)
      (shiftToTargetExponent Format.binary64 mantissa exponent accuracy).1.roundedMantissa := by
    have moved : v / 2 ^ exponent / 2 ^ (goal - exponent).toNat = v / 2 ^ goal := by
      rw [div_div, ← zpow_natCast, ← zpow_add₀ two_ne_zero]
      congr 2
      omega
    rw [first, ← moved]
    exact (fits.shiftRight _).nearest
  obtain rfl | ⟨rfl, touching, narrow, under⟩ := target
  · exact roundWithAccuracy_eq sign (nearest.unique rounds.nearest) reached
      (shift_kept canonical.below least) canonical.positive
  · -- One power lower the interval of the power of two reaches up to it from its last half.
    have doubled : v / 2 ^ (x.power - 1) = 2 * (v / 2 ^ x.power) := by
      rw [zpow_sub_one₀ two_ne_zero]
      field_simp
    have carried : Nearest (v / 2 ^ (x.power - 1)) (2 ^ 53) := by
      rw [doubled]
      push_cast
      exact ⟨by linarith, by linarith, fun _ => by norm_num⟩
    have result := roundWithAccuracy_eq sign (nearest.unique carried) reached
      (shift_carried wide) (by norm_num)
    rw [result]
    exact finite_eq sign touching.symm (by ring) _ _

end

end ReactiveView.Number
