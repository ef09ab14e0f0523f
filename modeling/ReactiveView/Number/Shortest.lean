import ReactiveView.Number.Decimal

/-!
# Shortest decimals

The decimal with the fewest digits that rounds to a given floating-point
number, and of those the nearest. All comparisons are exact. The search walks
down the decimal grids, one digit more at each step, and tests the two
neighbours of the number on each grid.
-/

namespace ReactiveView.Number

set_option autoImplicit false

/-- The positive floating-point number `mantissa * 2 ^ power` in its canonical
form: 53 bits of mantissa, or the least power. -/
structure Binary where
  mantissa : Nat
  power : Int

namespace Binary

/-- The neighbour below is half as far away as the neighbour above. -/
def narrowBelow (x : Binary) : Bool := x.mantissa == Nat.pow 2 52 && x.power > -1074

/-- The decimal lies among the reals that round to the number: from halfway to
one neighbour to halfway to the other, both ends included exactly when the
mantissa is even. -/
def readsBack (x : Binary) (decimal : Decimal) : Bool :=
  let low := if x.narrowBelow then 4 * x.mantissa - 1 else 4 * x.mantissa - 2
  let high := 4 * x.mantissa + 2
  let ends := x.mantissa % 2 == 0
  let fromLow := decimal.compareBinary low (x.power - 2)
  let fromHigh := decimal.compareBinary high (x.power - 2)
  (fromLow == .gt || ends && fromLow == .eq) && (fromHigh == .lt || ends && fromHigh == .eq)

/-- The least exponent `k` with the number below `10 ^ k`. The binary logarithm
gives a lower bound that is short by at most three. -/
def scale (x : Binary) : Int :=
  let bound := ((x.mantissa.log2 : Int) + x.power) * 30103 / 100000
  match (List.range 4).find? (fun (step : Nat) =>
      (Decimal.mk 1 (bound + step)).compareBinary x.mantissa x.power == .gt) with
  | some step => bound + step
  | none => bound + 4

/-- The nearest neighbour of the number on the grid of multiples of
`10 ^ exponent` that reads back, if one of the two does. On a tie the upper
one is taken. -/
def onGrid (x : Binary) (exponent : Int) : Option Decimal :=
  let numerator := x.mantissa * Nat.pow 2 x.power.toNat * Nat.pow 10 (-exponent).toNat
  let denominator := Nat.pow 2 (-x.power).toNat * Nat.pow 10 exponent.toNat
  let lower : Decimal := ⟨numerator / denominator, exponent⟩
  let upper : Decimal := ⟨numerator / denominator + 1, exponent⟩
  match x.readsBack lower, x.readsBack upper with
  | true, false => some lower
  | false, true => some upper
  | false, false => none
  | true, true =>
      if 2 * numerator < (2 * lower.digits + 1) * denominator then some lower else some upper

theorem readsBack_of_onGrid {x : Binary} {exponent : Int} {decimal : Decimal}
    (found : x.onGrid exponent = some decimal) : x.readsBack decimal = true := by
  simp only [onGrid] at found
  split at found
  · next lower _ => cases found; exact lower
  · next _ upper => cases found; exact upper
  · cases found
  · next lower upper =>
      split at found
      · cases found; exact lower
      · cases found; exact upper

def exact (x : Binary) : Decimal :=
  if 0 ≤ x.power then ⟨x.mantissa * Nat.pow 2 x.power.toNat, 0⟩
  else ⟨x.mantissa * Nat.pow 5 (-x.power).toNat, x.power⟩

/-- The shortest decimal, without trailing zeros. Seventeen digits always
suffice; were none found, the exact decimal would stand. -/
def shortest (x : Binary) : Decimal :=
  let found := ((List.range 17).findSome?
    (fun (count : Nat) => x.onGrid (x.scale - count - 1))).getD x.exact
  found.stripZeros found.written.length

end Binary

end ReactiveView.Number
