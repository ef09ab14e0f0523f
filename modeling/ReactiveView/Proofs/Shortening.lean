import ReactiveView.Number.Notation
import ReactiveView.Proofs.Packing

/-!
# Shortest decimals read back

The shortest decimal of a floating-point number lies in the interval of the number. The
intervals follow each other in the order of the numbers, so the decade of the shortest decimal
tells on which side of a power of ten the number is.
-/

namespace ReactiveView.Number

set_option autoImplicit false

namespace Decimal

variable {decimal : Decimal} {mantissa : Nat} {power : Int}

theorem scaled (decimal : Decimal) (mantissa : Nat) (power : Int) :
    ∃ factor : ℚ, 0 < factor ∧
      ((decimal.digits * 10 ^ decimal.exponent.toNat * 2 ^ (-power).toNat : Nat) : ℚ) =
        decimal.value * factor ∧
      ((mantissa * 2 ^ power.toNat * 10 ^ (-decimal.exponent).toNat : Nat) : ℚ) =
        mantissa * 2 ^ power * factor := by
  refine ⟨10 ^ (-decimal.exponent).toNat * 2 ^ (-power).toNat, by positivity, ?_, ?_⟩
  · rw [value, zpow_eq_div 10 (by norm_num)]
    push_cast
    field_simp
  · rw [zpow_eq_div 2 (by norm_num)]
    push_cast
    field_simp

theorem compareBinary_lt_iff :
    decimal.compareBinary mantissa power = .lt ↔ decimal.value < mantissa * 2 ^ power := by
  obtain ⟨factor, positive, left, right⟩ := scaled decimal mantissa power
  refine Nat.compare_eq_lt.trans ?_
  rw [← mul_lt_mul_iff_left₀ positive, ← left, ← right, Nat.cast_lt]
  rfl

theorem compareBinary_eq_iff :
    decimal.compareBinary mantissa power = .eq ↔ decimal.value = mantissa * 2 ^ power := by
  obtain ⟨factor, positive, left, right⟩ := scaled decimal mantissa power
  refine Nat.compare_eq_eq.trans ?_
  rw [← mul_left_inj' positive.ne', ← left, ← right, Nat.cast_inj]
  rfl

theorem compareBinary_gt_iff :
    decimal.compareBinary mantissa power = .gt ↔ mantissa * 2 ^ power < decimal.value := by
  obtain ⟨factor, positive, left, right⟩ := scaled decimal mantissa power
  refine Nat.compare_eq_gt.trans ?_
  rw [← mul_lt_mul_iff_left₀ positive, ← left, ← right, Nat.cast_lt]
  rfl

end Decimal

namespace Binary

/-- The test of the search: what passes it rounds to the number. -/
theorem rounds_of_readsBack {x : Binary} {decimal : Decimal} (positive : 0 < x.mantissa)
    (back : x.readsBack decimal = true) : x.Rounds decimal.value := by
  have unit : (0 : ℚ) < 2 ^ x.power := by positivity
  have steps (count : Nat) :
      (count : ℚ) * 2 ^ (x.power - 2) = (count / 4 : ℚ) * 2 ^ x.power := by
    rw [zpow_sub₀ two_ne_zero]
    ring
  have measured : decimal.value = decimal.value / 2 ^ x.power * 2 ^ x.power := by field_simp
  simp only [readsBack, Bool.and_eq_true, Bool.or_eq_true, beq_iff_eq,
    Decimal.compareBinary_lt_iff, Decimal.compareBinary_eq_iff, Decimal.compareBinary_gt_iff,
    steps] at back
  rw [measured] at back
  simp only [mul_lt_mul_iff_left₀ unit, mul_left_inj' unit.ne'] at back
  obtain ⟨fromLow, fromHigh⟩ := back
  have high : ((4 * x.mantissa + 2 : Nat) : ℚ) / 4 = x.mantissa + 1 / 2 := by
    push_cast
    ring
  rw [high] at fromHigh
  cases narrow : x.narrowBelow with
  | true =>
      have low : ((4 * x.mantissa - 1 : Nat) : ℚ) / 4 = x.mantissa - 1 / 4 := by
        rw [Nat.cast_sub (by omega)]
        push_cast
        ring
      rw [narrow, if_pos rfl, low] at fromLow
      have above : (x.mantissa : ℚ) - 1 / 4 ≤ decimal.value / 2 ^ x.power := by
        rcases fromLow with above | ⟨-, touching⟩ <;> linarith
      refine ⟨⟨by linarith, ?_, ?_⟩, fun _ => above⟩
      · rcases fromHigh with below | ⟨-, touching⟩ <;> linarith
      · rintro (touching | touching)
        · linarith
        · exact (fromHigh.resolve_left (by linarith)).1
  | false =>
      have low : ((4 * x.mantissa - 2 : Nat) : ℚ) / 4 = x.mantissa - 1 / 2 := by
        rw [Nat.cast_sub (by omega)]
        push_cast
        ring
      rw [narrow, if_neg Bool.false_ne_true, low] at fromLow
      refine ⟨⟨?_, ?_, ?_⟩, fun other => by simp [narrow] at other⟩
      · rcases fromLow with above | ⟨-, touching⟩ <;> linarith
      · rcases fromHigh with below | ⟨-, touching⟩ <;> linarith
      · rintro (touching | touching)
        · exact (fromLow.resolve_left (by linarith)).1
        · exact (fromHigh.resolve_left (by linarith)).1

end Binary

namespace Decimal

theorem value_stripZeros (bound : Nat) (decimal : Decimal) :
    (stripZeros bound decimal).value = decimal.value := by
  induction bound generalizing decimal with
  | zero => rfl
  | succ bound induction =>
      rw [stripZeros]
      split
      · next zero =>
          have split : decimal.digits = decimal.digits / 10 * 10 := by omega
          have split' : (decimal.digits : ℚ) = (decimal.digits / 10 : Nat) * 10 := by
            exact_mod_cast split
          rw [induction, value, value, split', zpow_add₀ (by norm_num), zpow_one]
          ring
      · rfl

end Decimal

namespace Binary

theorem value_exact (x : Binary) : x.exact.value = x.value := by
  rw [exact]
  split
  · next whole =>
      rw [Decimal.value, value, zpow_eq_div 2 two_ne_zero, show (-x.power).toNat = 0 by omega]
      simp
  · next fractional =>
      have ten : (10 : ℚ) = 2 * 5 := by norm_num
      rw [Decimal.value, value, zpow_eq_div 2 two_ne_zero,
        zpow_eq_div 10 (by norm_num), show x.power.toNat = 0 by omega]
      simp only [Nat.pow_eq, pow_zero, ten, mul_pow]
      push_cast
      field_simp

theorem rounds_shortest {x : Binary} (canonical : x.Canonical) : x.Rounds x.shortest.value := by
  rw [shortest, Decimal.value_stripZeros]
  cases found : (List.range 17).findSome?
      (fun (count : Nat) => x.onGrid (x.scale - count - 1)) with
  | none =>
      rw [Option.getD_none, value_exact]
      exact x.rounds_value
  | some decimal =>
      obtain ⟨count, -, near⟩ := List.exists_of_findSome?_eq_some found
      rw [Option.getD_some]
      exact rounds_of_readsBack canonical.positive (readsBack_of_onGrid near)

end Binary

namespace Decimal

variable {decimal : Decimal}

/-- The first digit of a decimal stands at its leading exponent. -/
theorem decade (some : 0 < decimal.digits) :
    10 ^ decimal.leadingExponent ≤ decimal.value ∧
      decimal.value < 10 ^ (decimal.leadingExponent + 1) := by
  obtain ⟨length, counted⟩ : ∃ length, decimal.written.length = length + 1 :=
    ⟨_, (Nat.succ_pred_eq_of_pos Nat.length_toDigits_pos).symm⟩
  have leading : decimal.leadingExponent = decimal.exponent + length := by
    rw [leadingExponent, counted]
    push_cast
    ring
  have below : decimal.digits < 10 ^ (length + 1) :=
    (Nat.length_toDigits_le_iff (by decide) (by omega)).mp counted.le
  have above : 10 ^ length ≤ decimal.digits := by
    by_contra less
    cases length with
    | zero => omega
    | succ shorter =>
        have short : decimal.written.length ≤ shorter + 1 :=
          (Nat.length_toDigits_le_iff (by decide) (by omega)).mpr (by omega)
        omega
  have unit : (0 : ℚ) < 10 ^ decimal.exponent := by positivity
  have below' : (decimal.digits : ℚ) < 10 ^ (length + 1) := by exact_mod_cast below
  have above' : (10 : ℚ) ^ length ≤ decimal.digits := by exact_mod_cast above
  constructor
  · rw [leading, zpow_add₀ (by norm_num), zpow_natCast, value, mul_comm]
    exact mul_le_mul_of_nonneg_right above' unit.le
  · rw [leading, add_assoc, zpow_add₀ (by norm_num), value, mul_comm]
    exact mul_lt_mul_of_pos_left (by exact_mod_cast below') unit

end Decimal

namespace Binary

/-- The order of numbers in their canonical form: by the power, then by the mantissa. -/
def Below (x y : Binary) : Prop :=
  x.power < y.power ∨ x.power = y.power ∧ x.mantissa < y.mantissa

theorem eq_of_not_below {x y : Binary} (first : ¬ x.Below y) (second : ¬ y.Below x) : x = y := by
  obtain ⟨mantissa, power⟩ := x
  obtain ⟨mantissa', power'⟩ := y
  simp only [Below, not_or, not_and, not_lt] at first second
  have same : power = power' := by omega
  subst same
  have same : mantissa = mantissa' := by
    have := first.2 rfl
    have := second.2 rfl
    omega
  rw [same]

/-- The greatest mantissa is odd, so its interval ends before its upper end. -/
theorem Rounds.short {x : Binary} {v : ℚ} (canonical : x.Canonical) (rounds : x.Rounds v) :
    v / 2 ^ x.power < 2 ^ 53 - 1 / 2 := by
  have below := rounds.nearest.below
  by_cases greatest : x.mantissa = 2 ^ 53 - 1
  · have cast : (x.mantissa : ℚ) = 2 ^ 53 - 1 := by
      rw [greatest]
      norm_num
    refine lt_of_le_of_ne (by linarith) fun touching => ?_
    have even := rounds.nearest.even (.inr (by linarith))
    omega
  · have less : x.mantissa + 2 ≤ 2 ^ 53 := by
      have := canonical.below
      omega
    have less' : (x.mantissa : ℚ) + 2 ≤ 2 ^ 53 := by exact_mod_cast less
    linarith

/-- The intervals follow each other in the order of the numbers. -/
theorem Rounds.lt_of_below {x y : Binary} {v w : ℚ} (canonical : x.Canonical)
    (canonical' : y.Canonical) (first : x.Rounds v) (second : y.Rounds w) (below : x.Below y) :
    v < w := by
  have unit : (0 : ℚ) < 2 ^ x.power := by positivity
  have unit' : (0 : ℚ) < 2 ^ y.power := by positivity
  obtain lower | ⟨level, less⟩ := below
  · have least := canonical.least
    have reached : 2 ^ 52 - 1 / 4 ≤ w / 2 ^ y.power := by
      obtain full | ⟨-, narrow, -⟩ := second.binade canonical' (by omega)
      · rw [zpow_add₀ two_ne_zero, ← le_div_iff₀ unit'] at full
        norm_num at full ⊢
        linarith
      · exact narrow
    have step : (2 : ℚ) ^ x.power * 2 ≤ 2 ^ y.power := by
      rw [← zpow_add_one₀ two_ne_zero]
      exact zpow_le_zpow_right₀ one_le_two (by omega)
    have short := first.short canonical
    rw [div_lt_iff₀ unit] at short
    rw [le_div_iff₀ unit'] at reached
    norm_num at short reached
    linarith
  · by_contra more
    rw [not_lt] at more
    have ordered : w / 2 ^ y.power ≤ v / 2 ^ x.power := by
      rw [level]
      exact div_le_div_of_nonneg_right more unit'.le
    have := second.nearest.mono first.nearest ordered
    omega

theorem digits_shortest_pos {x : Binary} (canonical : x.Canonical) : 0 < x.shortest.digits := by
  rw [Nat.pos_iff_ne_zero]
  intro none
  have reached := (rounds_shortest canonical).positive canonical
  have above : (0 : ℚ) < 2 ^ (-1075 : Int) := by positivity
  rw [Decimal.value, none, Nat.cast_zero, zero_mul] at reached
  linarith

/-- A number that a power of ten rounds to, and whose own decimal is in the decade that begins
there, divides the numbers by the decades of their decimals. -/
theorem le_leadingExponent_iff {x y : Binary} {exponent : Int} (canonical : x.Canonical)
    (canonical' : y.Canonical) (back : y.readsBack ⟨1, exponent⟩ = true)
    (own : y.shortest.leadingExponent = exponent) :
    exponent ≤ x.shortest.leadingExponent ↔ ¬ x.Below y := by
  have power := rounds_of_readsBack canonical'.positive back
  have one : Decimal.value ⟨1, exponent⟩ = 10 ^ exponent := by simp [Decimal.value]
  rw [one] at power
  have shortest := rounds_shortest canonical
  obtain ⟨low, high⟩ := Decimal.decade (digits_shortest_pos canonical)
  constructor
  · intro reached below
    have less := Rounds.lt_of_below canonical canonical' shortest power below
    have decades : (10 : ℚ) ^ exponent ≤ 10 ^ x.shortest.leadingExponent :=
      zpow_le_zpow_right₀ (by norm_num) reached
    linarith
  · intro above
    by_contra less
    have decades : (10 : ℚ) ^ (x.shortest.leadingExponent + 1) ≤ 10 ^ exponent :=
      zpow_le_zpow_right₀ (by norm_num) (by omega)
    have under : ¬ y.Below x := fun below => by
      have := Rounds.lt_of_below canonical' canonical power shortest below
      linarith
    rw [eq_of_not_below above under] at less
    omega

end Binary

open Float.Model (UnpackedFloat)

theorem lt_iff (a b : Float) :
    a < b ↔ UnpackedFloat.compare a.toModel.unpack b.toModel.unpack = some .lt := by
  change decide _ = true ↔ _
  rw [decide_eq_true_iff]
  change (_ == _) = true ↔ _
  rw [beq_iff_eq]

theorem le_iff (a b : Float) :
    a ≤ b ↔ (UnpackedFloat.compare a.toModel.unpack b.toModel.unpack).any (·.isLE) = true := by
  change decide _ = true ↔ _
  rw [decide_eq_true_iff]
  rfl

section

variable {mantissa mantissa' : Nat} {power power' : Int} {positive : 0 < mantissa}
  {positive' : 0 < mantissa'}

theorem compare_eq_lt_iff :
    UnpackedFloat.compare (.finite .positive mantissa power positive)
        (.finite .positive mantissa' power' positive') = some .lt ↔
      Binary.Below ⟨mantissa, power⟩ ⟨mantissa', power'⟩ := by
  change some ((compare power power').then (compare mantissa mantissa')) = some .lt ↔ _
  rw [Option.some_inj, Ordering.then_eq_lt, Int.compare_eq_lt, Int.compare_eq_eq,
    Nat.compare_eq_lt]
  rfl

theorem compare_isLE_iff :
    (UnpackedFloat.compare (.finite .positive mantissa power positive)
        (.finite .positive mantissa' power' positive')).any (·.isLE) = true ↔
      ¬ Binary.Below ⟨mantissa', power'⟩ ⟨mantissa, power⟩ := by
  change ((compare power power').then (compare mantissa mantissa')).isLE = true ↔ _
  rw [Ordering.isLE_iff_ne_gt, not_iff_not, Ordering.then_eq_gt, Int.compare_eq_gt,
    Int.compare_eq_eq, Nat.compare_eq_gt, Binary.Below, eq_comm]

end

def millionth : Binary := ⟨4722366482869645, -72⟩

def sextillion : Binary := ⟨7629394531250000, 17⟩

theorem canonical_millionth : millionth.Canonical := by
  constructor <;> decide

theorem canonical_sextillion : sextillion.Canonical := by
  constructor <;> decide

theorem readsBack_millionth : millionth.readsBack ⟨1, -6⟩ = true := by decide +kernel

theorem readsBack_sextillion : sextillion.readsBack ⟨1, 21⟩ = true := by decide +kernel

theorem unpack_millionth : (1e-6 : Float).toModel.unpack =
    .finite .positive millionth.mantissa millionth.power canonical_millionth.positive := by
  have same : (1e-6 : Float) = Decimal.toFloat ⟨1, -6⟩ := by
    change Float.ofScientific 1 true 6 = Float.ofScientific 1 (decide ((-6 : Int) < 0)) 6
    rw [decide_eq_true (show (-6 : Int) < 0 by decide)]
  rw [same]
  exact Decimal.unpack_toFloat canonical_millionth (by decide)
    (Binary.rounds_of_readsBack canonical_millionth.positive readsBack_millionth)

theorem unpack_sextillion : (1e21 : Float).toModel.unpack =
    .finite .positive sextillion.mantissa sextillion.power canonical_sextillion.positive := by
  have same : (1e21 : Float) = Decimal.toFloat ⟨1, 21⟩ := rfl
  rw [same]
  exact Decimal.unpack_toFloat canonical_sextillion (by decide)
    (Binary.rounds_of_readsBack canonical_sextillion.positive readsBack_sextillion)

/-- The shortest decimal is written without an exponent from a millionth up to a sextillion. -/
theorem positional_iff {n : Float} {mantissa : Nat} {power : Int} {positive : 0 < mantissa}
    (held : n.toModel.unpack = .finite .positive mantissa power positive) :
    (-6 ≤ (Binary.mk mantissa power).shortest.leadingExponent ∧
        (Binary.mk mantissa power).shortest.leadingExponent ≤ 20) ↔
      1e-6 ≤ n ∧ n < 1e21 := by
  have canonical := (canonical_of_unpack held).1
  have low := Binary.le_leadingExponent_iff canonical canonical_millionth readsBack_millionth
    (by decide +kernel)
  have high := Binary.le_leadingExponent_iff canonical canonical_sextillion readsBack_sextillion
    (by decide +kernel)
  rw [le_iff, lt_iff, held, unpack_millionth, unpack_sextillion, compare_isLE_iff,
    compare_eq_lt_iff]
  refine and_congr low ?_
  rw [← not_iff_not, ← high]
  omega

end ReactiveView.Number
