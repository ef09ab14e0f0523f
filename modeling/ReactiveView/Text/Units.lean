/-!
# Sixteen-bit units

Lengths and positions in a text count 16-bit units: a character of the basic
plane is one unit, any other character is a pair of surrogates.
-/

namespace ReactiveView.Text

set_option autoImplicit false

def unitsOf (c : Char) : List Nat :=
  if c.toNat < 0x10000 then [c.toNat]
  else [0xD800 + (c.toNat - 0x10000) / 0x400, 0xDC00 + (c.toNat - 0x10000) % 0x400]

def units (characters : List Char) : List Nat := characters.flatMap unitsOf

/-- The character a single unit stands for; half of a surrogate pair reads as
U+FFFD. -/
def ofUnit (unit : Nat) : Char :=
  if 0xD800 ≤ unit ∧ unit ≤ 0xDFFF then '\uFFFD' else Char.ofNat unit

theorem ofUnit_toNat (c : Char) (basic : c.toNat < 0x10000) :
    unitsOf c = [c.toNat] ∧ ofUnit c.toNat = c := by
  refine ⟨by simp [unitsOf, basic], ?_⟩
  have valid : c.toNat < 0xD800 ∨ 0xDFFF < c.toNat ∧ c.toNat < 0x110000 := c.valid
  have outside : ¬ (0xD800 ≤ c.toNat ∧ c.toNat ≤ 0xDFFF) := by omega
  simp [ofUnit, outside]

end ReactiveView.Text
