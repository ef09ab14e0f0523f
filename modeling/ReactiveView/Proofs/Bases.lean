import Mathlib.Data.List.Forall2
import Mathlib.Data.Nat.Digits.Defs
import ReactiveView.Proofs.Numerals

/-!
# Whole numbers in other bases

Behind its mark a text is read as a whole number in base 16, 8 or 2: digits of that base and
nothing else, neither a sign nor any other character. The value is accumulated in 64 bits, so
a text whose digits denote more has no numeric reading, however right its digits are.
-/

namespace ReactiveView.Number

set_option autoImplicit false

/-- The character is a digit of the base and stands for the value. -/
def DigitOf (base : Nat) (c : Char) (value : Nat) : Prop :=
  value < base ∧ ("0123456789abcdef".toList[value]? = some c ∨
    "0123456789ABCDEF".toList[value]? = some c)

instance (base : Nat) (c : Char) (value : Nat) : Decidable (DigitOf base c value) :=
  inferInstanceAs (Decidable (_ ∧ _))

/-- The digits, the most significant one first, denote the whole number. -/
def Denotes (base : Nat) (digits : List Char) (whole : Nat) : Prop :=
  digits ≠ [] ∧ ∃ values, List.Forall₂ (DigitOf base) digits values ∧
    whole = Nat.ofDigits base values.reverse

section

variable {base value : Nat} {c : Char} {digits : List Char} {values : List Nat}

theorem digitValue?_eq_some_iff : digitValue? c = some value ↔ DigitOf 16 c value := by
  constructor
  · intro found
    have low : c.toNat ≤ 'f'.toNat := by
      by_contra high
      have above (d : Char) (small : d.toNat ≤ 'f'.toNat) : ¬c ≤ d := by
        rw [Char.le_def, UInt32.le_iff_toNat_le]
        exact fun less => high (less.trans small)
      simp [digitValue?, above '9' (by decide), above 'f' (by decide), above 'F' (by decide)]
        at found
    have all : ∀ code, code ≤ 'f'.toNat → ∀ value ∈ digitValue? (Char.ofNat code),
        DigitOf 16 (Char.ofNat code) value := by decide +kernel
    have held := all c.toNat low value
    rw [Char.ofNat_toNat] at held
    exact held found
  · rintro ⟨small, row | row⟩
    · interval_cases value <;> cases row <;> rfl
    · interval_cases value <;> cases row <;> rfl

theorem digitIn?_eq_some_iff (small : base ≤ 16) :
    digitIn? base c = some value ↔ DigitOf base c value := by
  rw [digitIn?, Option.filter_eq_some_iff, digitValue?_eq_some_iff, DigitOf, DigitOf,
    decide_eq_true_eq]
  constructor
  · rintro ⟨⟨-, row⟩, less⟩
    exact ⟨less, row⟩
  · rintro ⟨less, row⟩
    exact ⟨⟨less.trans_le small, row⟩, less⟩

theorem DigitOf.isAlphanum (digit : DigitOf base c value) : c.isAlphanum = true := by
  have lower : "0123456789abcdef".toList.all Char.isAlphanum = true := by decide
  have upper : "0123456789ABCDEF".toList.all Char.isAlphanum = true := by decide
  rcases digit.2 with row | row
  · exact List.all_eq_true.mp lower c (List.mem_of_getElem? row)
  · exact List.all_eq_true.mp upper c (List.mem_of_getElem? row)

theorem mapM_digitIn?_eq_some_iff (small : base ≤ 16) :
    digits.mapM (digitIn? base) = some values ↔ List.Forall₂ (DigitOf base) digits values := by
  induction digits generalizing values with
  | nil =>
      rw [List.forall₂_nil_left_iff]
      exact ⟨fun same => (Option.some.inj same).symm, fun same => same ▸ rfl⟩
  | cons c digits induction =>
      rw [List.mapM_cons, List.forall₂_cons_left_iff]
      simp only [Option.bind_eq_bind, Option.bind_eq_some_iff, digitIn?_eq_some_iff small,
        induction]
      constructor
      · rintro ⟨value, digit, others, rest, same⟩
        cases same
        exact ⟨value, others, digit, rest, rfl⟩
      · rintro ⟨value, others, digit, rest, rfl⟩
        exact ⟨value, digit, others, rest, rfl⟩

theorem exists_forall₂_iff :
    (∃ values, List.Forall₂ (DigitOf base) digits values) ↔
      ∀ c ∈ digits, ∃ value, DigitOf base c value := by
  induction digits with
  | nil => exact ⟨fun _ => nofun, fun _ => ⟨[], .nil⟩⟩
  | cons c digits induction =>
      rw [List.forall_mem_cons, ← induction]
      constructor
      · rintro ⟨values, each⟩
        obtain ⟨value, others, digit, rest, rfl⟩ := List.forall₂_cons_left_iff.mp each
        exact ⟨⟨value, digit⟩, others, rest⟩
      · rintro ⟨⟨value, digit⟩, others, rest⟩
        exact ⟨value :: others, .cons digit rest⟩

theorem exists_denotes_iff :
    (∃ whole, Denotes base digits whole) ↔
      digits ≠ [] ∧ ∀ c ∈ digits, ∃ value, DigitOf base c value := by
  rw [← exists_forall₂_iff]
  constructor
  · rintro ⟨whole, some, values, each, -⟩
    exact ⟨some, values, each⟩
  · rintro ⟨some, values, each⟩
    exact ⟨_, some, values, each, rfl⟩

theorem Denotes.unique (small : base ≤ 16) {whole other : Nat}
    (denotes : Denotes base digits whole) (denotes' : Denotes base digits other) :
    whole = other := by
  obtain ⟨-, values, each, rfl⟩ := denotes
  obtain ⟨-, values', each', rfl⟩ := denotes'
  have same := ((mapM_digitIn?_eq_some_iff small).mpr each).symm.trans
    ((mapM_digitIn?_eq_some_iff small).mpr each')
  rw [Option.some.inj same]

theorem valueOfDigits_eq (base : Nat) (values : List Nat) :
    Decimal.valueOfDigits base values = Nat.ofDigits base values.reverse := by
  rw [Nat.ofDigits_eq_foldr, List.foldr_reverse, Decimal.valueOfDigits]
  congr 1
  funext value digit
  rw [Nat.add_comm, Nat.mul_comm]
  rfl

theorem readWhole_eq_some_iff (small : base ≤ 16) (unsigned : ∀ rest, digits ≠ '+' :: rest)
    {whole : Nat} :
    readWhole base digits = some whole ↔ Denotes base digits whole ∧ whole < 2 ^ 64 := by
  have unfolded : readWhole base digits =
      if digits = [] then none
      else (digits.mapM (digitIn? base)).bind fun values =>
        if Decimal.valueOfDigits base values < 2 ^ 64 then
          some (Decimal.valueOfDigits base values)
        else none := by
    rw [readWhole]
    · cases digits.mapM (digitIn? base) <;> rfl
    · exact unsigned
  rw [unfolded, Option.ite_none_left_eq_some, Option.bind_eq_some_iff, Denotes, and_assoc]
  refine and_congr_right fun some => ?_
  simp only [Option.ite_none_right_eq_some, Option.some.injEq, mapM_digitIn?_eq_some_iff small,
    valueOfDigits_eq]
  constructor
  · rintro ⟨values, each, fits, rfl⟩
    exact ⟨⟨values, each, rfl⟩, fits⟩
  · rintro ⟨⟨values, each, rfl⟩, fits⟩
    exact ⟨values, each, fits, rfl⟩

/-- The filter stops the plus that the general reading would skip, and no digit. -/
theorem readMarked_eq_some_iff (small : base ≤ 16) {x : Float} :
    readMarked base digits = some x ↔
      ∃ whole, Denotes base digits whole ∧ whole < 2 ^ 64 ∧ x = Float.ofNat whole := by
  have unsigned (all : digits.all Char.isAlphanum = true) (rest : List Char) :
      digits ≠ '+' :: rest := by
    rintro rfl
    exact absurd (List.all_eq_true.mp all '+' List.mem_cons_self) (by decide)
  rw [readMarked]
  constructor
  · intro read
    split at read
    · next all =>
        obtain ⟨whole, found, rfl⟩ := Option.map_eq_some_iff.mp read
        obtain ⟨denotes, fits⟩ := (readWhole_eq_some_iff small (unsigned all)).mp found
        exact ⟨whole, denotes, fits, rfl⟩
    · cases read
  · rintro ⟨whole, denotes, fits, rfl⟩
    have all : digits.all Char.isAlphanum = true := by
      refine List.all_eq_true.mpr fun c member => ?_
      obtain ⟨value, digit⟩ := (exists_denotes_iff.mp ⟨whole, denotes⟩).2 c member
      exact digit.isAlphanum
    rw [if_pos all, (readWhole_eq_some_iff small (unsigned all)).mpr ⟨denotes, fits⟩,
      Option.map_some]

end

theorem base_le_of_mem_marks {mark : Char} {base : Nat} (announced : (mark, base) ∈ marks) :
    base ≤ 16 := by
  have all : ∀ entry ∈ marks, entry.2 ≤ 16 := by decide
  exact all (mark, base) announced

theorem read_marked {text : String} {mark : Char} {base : Nat} {digits : List Char}
    (announced : (mark, base) ∈ marks)
    (trimmed : Text.Trimmed text.toList ('0' :: mark :: digits)) :
    read text = readMarked base digits := by
  rw [read, trimmed.trim_eq, readTrimmed, baseOfMark_eq_some_iff.mpr announced]

/-- Behind its mark a text is read as the whole number that its digits denote, if that is less
than 2^64. It has no numeric reading if they denote more, if there are none, or if any
character is not a digit of the base. -/
theorem marked_numerals_exact {text : String} {mark : Char} {base : Nat} {digits : List Char}
    (announced : (mark, base) ∈ marks)
    (trimmed : Text.Trimmed text.toList ('0' :: mark :: digits)) :
    ((∃ whole, Denotes base digits whole) ↔
      digits ≠ [] ∧ ∀ c ∈ digits, ∃ value, DigitOf base c value) ∧
    (∀ whole, Denotes base digits whole → whole < 2 ^ 64 →
      (Value.text text).number? = some (Float.ofNat whole)) ∧
    (∀ whole, Denotes base digits whole → 2 ^ 64 ≤ whole →
      (Value.text text).number? = none) ∧
    ((digits = [] ∨ ∃ c ∈ digits, ∀ value, ¬DigitOf base c value) →
      (Value.text text).number? = none) := by
  have small := base_le_of_mem_marks announced
  have exact : ∀ x, (Value.text text).number? = some x ↔
      ∃ whole, Denotes base digits whole ∧ whole < 2 ^ 64 ∧ x = Float.ofNat whole := by
    intro x
    rw [Value.number?, read_marked announced trimmed, readMarked_eq_some_iff small]
  refine ⟨exists_denotes_iff, ?_, ?_, ?_⟩
  · exact fun whole denotes fits => (exact _).mpr ⟨whole, denotes, fits, rfl⟩
  · intro whole denotes long
    refine Option.eq_none_iff_forall_ne_some.mpr fun x found => ?_
    obtain ⟨other, denotes', fits, -⟩ := (exact x).mp found
    have := denotes.unique small denotes'
    omega
  · intro wrong
    refine Option.eq_none_iff_forall_ne_some.mpr fun x found => ?_
    obtain ⟨whole, denotes, -, -⟩ := (exact x).mp found
    obtain ⟨some, all⟩ := exists_denotes_iff.mp ⟨whole, denotes⟩
    rcases wrong with none | ⟨c, member, other⟩
    · exact some none
    · obtain ⟨value, digit⟩ := all c member
      exact other value digit

theorem marked_numerals_exact_full :
    Denotes 16 "ffFFffFFffFFffFF".toList (2 ^ 64 - 1) ∧
    (Value.text "\u00A00XffFFffFFffFFffFF\t").number? = some (Float.ofNat (2 ^ 64 - 1)) ∧
    Denotes 16 "10000000000000000".toList (2 ^ 64) ∧
    (Value.text "0x10000000000000000").number? = none ∧
    (Value.text "0b102").number? = none := by
  have full : Denotes 16 "ffFFffFFffFFffFF".toList (2 ^ 64 - 1) :=
    ⟨by decide, List.replicate 16 15, by decide, by decide⟩
  have beyond : Denotes 16 "10000000000000000".toList (2 ^ 64) :=
    ⟨by decide, 1 :: List.replicate 16 0, by decide, by decide⟩
  have surrounded : Text.Trimmed "\u00A00XffFFffFFffFFffFF\t".toList
      ('0' :: 'X' :: "ffFFffFFffFFffFF".toList) := Text.trim_eq_iff.mp (by decide)
  have longer : Text.Trimmed "0x10000000000000000".toList
      ('0' :: 'x' :: "10000000000000000".toList) := Text.trim_eq_iff.mp (by decide)
  have binary : Text.Trimmed "0b102".toList ['0', 'b', '1', '0', '2'] :=
    Text.trim_eq_iff.mp (by decide)
  obtain ⟨-, reads, -⟩ := marked_numerals_exact (by decide : ('X', 16) ∈ marks) surrounded
  obtain ⟨-, -, lost, -⟩ := marked_numerals_exact (by decide : ('x', 16) ∈ marks) longer
  obtain ⟨-, -, -, refused⟩ := marked_numerals_exact (by decide : ('b', 2) ∈ marks) binary
  have two : ∀ value, ¬DigitOf 2 '2' value := by
    rintro value ⟨less, row⟩
    interval_cases value <;> revert row <;> decide
  exact ⟨full, reads _ full (by decide), beyond, lost _ beyond (by decide),
    refused (.inr ⟨'2', by decide, two⟩)⟩

/-- Not every text of right digits behind their mark has a numeric reading. -/
theorem marked_numeral_lost :
    ¬∀ (text : String) (mark : Char) (base : Nat) (digits : List Char) (whole : Nat),
      (mark, base) ∈ marks → Text.Trimmed text.toList ('0' :: mark :: digits) →
        Denotes base digits whole →
          (Value.text text).number? = some (Float.ofNat whole) := by
  intro read
  have found := read "0x10000000000000000" 'x' 16 "10000000000000000".toList (2 ^ 64)
    (by decide) (Text.trim_eq_iff.mp (by decide))
    ⟨by decide, 1 :: List.replicate 16 0, by decide, by decide⟩
  revert found
  decide +kernel

end ReactiveView.Number
