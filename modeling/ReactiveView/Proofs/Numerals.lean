import Mathlib.Tactic.IntervalCases
import ReactiveView.Data.Value
import ReactiveView.Proofs.Tiling

/-!
# Numerals

A grammar of the texts that have a numeric reading, beside the grammar of what the general
reading of floating-point numbers takes. The characters that decimals are written with keep
all names of numbers out and no decimal, so the filter in front of the general reading leaves
exactly the decimals, and of the names `Infinity` alone has a reading.
-/

namespace ReactiveView.Text

set_option autoImplicit false

/-- What is left of the characters without the white space at both ends. -/
structure Trimmed (characters inner : List Char) : Prop where
  surrounded : ∃ before after, characters = before ++ (inner ++ after) ∧
    (∀ c ∈ before, isBlank c = true) ∧ ∀ c ∈ after, isBlank c = true
  first : ∀ c rest, inner = c :: rest → isBlank c = false
  last : ∀ rest c, inner = rest ++ [c] → isBlank c = false

section

variable {characters inner : List Char}

theorem isBlank_of_dropWhile {c : Char} {rest : List Char}
    (same : characters.dropWhile isBlank = c :: rest) : isBlank c = false := by
  have ends := List.head?_dropWhile_not isBlank characters
  rw [same] at ends
  exact ends

theorem dropWhile_blanks {before : List Char} (blank : ∀ c ∈ before, isBlank c = true)
    (first : ∀ c rest, inner = c :: rest → isBlank c = false) :
    (before ++ inner).dropWhile isBlank = inner := by
  rw [List.dropWhile_append_of_pos blank]
  cases inner with
  | nil => rfl
  | cons c rest => exact List.dropWhile_cons_of_neg (by simp [first c rest rfl])

theorem trimmed_trim (characters : List Char) : Trimmed characters (trim characters) := by
  obtain ⟨kept, front⟩ : ∃ kept, characters.dropWhile isBlank = kept := ⟨_, rfl⟩
  have whole : characters = characters.takeWhile isBlank ++ kept := by
    rw [← front, List.takeWhile_append_dropWhile]
  have split : kept = (kept.reverse.dropWhile isBlank).reverse ++
      (kept.reverse.takeWhile isBlank).reverse := by
    rw [← List.reverse_append, List.takeWhile_append_dropWhile, List.reverse_reverse]
  -- The end is trimmed as the beginning of the reversed characters.
  rw [trim, front]
  refine ⟨⟨_, _, whole.trans (congrArg _ split), ?_, ?_⟩, ?_, ?_⟩
  · exact fun c member => List.mem_takeWhile_imp member
  · exact fun c member => List.mem_takeWhile_imp (List.mem_reverse.mp member)
  · intro c rest same
    rw [same, List.cons_append] at split
    exact isBlank_of_dropWhile (front.trans split)
  · intro rest c same
    have reversed : kept.reverse.dropWhile isBlank = c :: rest.reverse := by
      rw [← List.reverse_reverse (kept.reverse.dropWhile isBlank), same, List.reverse_append,
        List.reverse_singleton, List.singleton_append]
    exact isBlank_of_dropWhile reversed

theorem Trimmed.trim_eq (trimmed : Trimmed characters inner) : trim characters = inner := by
  obtain ⟨⟨before, after, whole, blank, blank'⟩, first, last⟩ := trimmed
  rw [trim, whole]
  cases inner with
  | nil =>
      have none : (before ++ ([] ++ after)).dropWhile isBlank = [] := by
        refine List.dropWhile_eq_nil_iff.mpr fun c member => ?_
        exact (List.mem_append.mp member).elim (blank c) (blank' c)
      rw [none]
      rfl
  | cons c rest =>
      rw [dropWhile_blanks blank (fun d tail same => first d rest (by
        rw [(List.cons.inj same).1])), List.reverse_append, dropWhile_blanks]
      · exact List.reverse_reverse _
      · exact fun d member => blank' d (List.mem_reverse.mp member)
      · intro d tail same
        refine last tail.reverse d ?_
        rw [← List.reverse_reverse (c :: rest), same, List.reverse_cons]

theorem trim_eq_iff : trim characters = inner ↔ Trimmed characters inner :=
  ⟨fun same => same ▸ trimmed_trim characters, Trimmed.trim_eq⟩

end

end ReactiveView.Text

namespace ReactiveView.Number

set_option autoImplicit false

/-- At least one digit. -/
def DigitRun (characters : List Char) : Prop :=
  characters ≠ [] ∧ ∀ c ∈ characters, c.isDigit = true

/-- An optional sign, and whether it is a minus. -/
inductive SignMark : List Char → Bool → Prop where
  | absent : SignMark [] false
  | plus : SignMark ['+'] false
  | minus : SignMark ['-'] true

/-- Digits, after which or among which there may be a point, or a point before digits. Told
apart are the digits before and after the point. -/
inductive Significand : List Char → List Char → List Char → Prop where
  | whole {digits : List Char} (run : DigitRun digits) : Significand digits digits []
  | pointed {digits fraction : List Char} (run : DigitRun digits)
      (all : ∀ c ∈ fraction, c.isDigit = true) :
      Significand (digits ++ '.' :: fraction) digits fraction
  | fraction {fraction : List Char} (run : DigitRun fraction) :
      Significand ('.' :: fraction) [] fraction

/-- An optional exponent. -/
inductive Power : List Char → Int → Prop where
  | absent : Power [] 0
  | marked {mark : Char} {sign digits : List Char} {negative : Bool}
      (marks : mark = 'e' ∨ mark = 'E') (signs : SignMark sign negative)
      (run : DigitRun digits) :
      Power (mark :: (sign ++ digits))
        (if negative then -(Decimal.wholeOfDigits digits : Int)
          else Decimal.wholeOfDigits digits)

/-- A decimal without a sign. -/
inductive Plain : List Char → Decimal → Prop where
  | parts {front back whole fraction : List Char} {power : Int}
      (significand : Significand front whole fraction) (exponent : Power back power) :
      Plain (front ++ back) (Decimal.ofParts whole fraction power)

/-- A name of a number, in letters of either case. -/
inductive Named : List Char → Float → Prop where
  | nan {name : List Char} (same : name.map Char.toLower = "nan".toList) :
      Named name (0.0 / 0.0)
  | infinity {name : List Char} (same : name.map Char.toLower = "inf".toList ∨
      name.map Char.toLower = "infinity".toList) : Named name (1.0 / 0.0)

/-- What the general reading of floating-point numbers takes. -/
inductive Floating : List Char → Float → Prop where
  | decimal {sign characters : List Char} {negative : Bool} {decimal : Decimal}
      (signs : SignMark sign negative) (plain : Plain characters decimal) :
      Floating (sign ++ characters) (signed negative decimal.toFloat)
  | named {sign name : List Char} {negative : Bool} {x : Float}
      (signs : SignMark sign negative) (named : Named name x) :
      Floating (sign ++ name) (signed negative x)

/-- The characters between white space that have a numeric reading, and what it is. -/
inductive Numeral : List Char → Float → Prop where
  | blank : Numeral [] 0
  | infinity {sign : List Char} {negative : Bool} (signs : SignMark sign negative) :
      Numeral (sign ++ "Infinity".toList) (signed negative (1.0 / 0.0))
  | decimal {sign characters : List Char} {negative : Bool} {decimal : Decimal}
      (signs : SignMark sign negative) (plain : Plain characters decimal) :
      Numeral (sign ++ characters) (signed negative decimal.toFloat)

section

variable {c : Char} {characters sign rest : List Char} {negative : Bool}

theorem mem_of_isDigit (digit : c.isDigit = true) : c ∈ "0123456789".toList := by
  rw [Token.isDigit_iff] at digit
  obtain ⟨code, same⟩ : ∃ code, c.toNat = code := ⟨_, rfl⟩
  rw [same] at digit
  obtain ⟨low, high⟩ := digit
  rw [← Char.ofNat_toNat c, same]
  interval_cases code <;> decide

theorem inDecimals_iff : inDecimals c = true ↔ c ∈ "0123456789.eE+-".toList := by
  constructor
  · intro written
    simp only [inDecimals, Bool.or_eq_true, decide_eq_true_eq] at written
    rcases written with ((((digit | rfl) | rfl) | rfl) | rfl) | rfl
    · exact List.mem_append_left ".eE+-".toList (mem_of_isDigit digit)
    all_goals decide
  · have all : "0123456789.eE+-".toList.all inDecimals = true := by decide
    exact List.all_eq_true.mp all c

theorem toLower_of_inDecimals (written : inDecimals c = true) :
    c.toLower ≠ 'n' ∧ c.toLower ≠ 'i' := by
  have all : "0123456789.eE+-".toList.all
      (fun d => d.toLower ≠ 'n' ∧ d.toLower ≠ 'i') = true := by decide
  exact of_decide_eq_true (List.all_eq_true.mp all c (inDecimals_iff.mp written))

/-- No sign stands in front. -/
def Bare (characters : List Char) : Prop :=
  ∀ c rest, characters = c :: rest → c ≠ '+' ∧ c ≠ '-'

theorem bare_cons (plus : c ≠ '+') (minus : c ≠ '-') (rest : List Char) : Bare (c :: rest) := by
  intro d tail same
  cases same
  exact ⟨plus, minus⟩

theorem SignMark.splitSign_eq (signs : SignMark sign negative) (bare : Bare characters) :
    splitSign (sign ++ characters) = (negative, characters) := by
  cases signs with
  | plus => rfl
  | minus => rfl
  | absent =>
      cases characters with
      | nil => rfl
      | cons c rest =>
          obtain ⟨plus, minus⟩ := bare c rest rfl
          simp [splitSign, plus, minus]

theorem SignMark.of_bare (signs : SignMark sign negative) (bare : Bare (sign ++ characters)) :
    sign = [] ∧ negative = false := by
  cases signs with
  | absent => exact ⟨rfl, rfl⟩
  | plus => exact absurd rfl (bare '+' characters rfl).1
  | minus => exact absurd rfl (bare '-' characters rfl).2

theorem exists_signMark (characters : List Char) :
    ∃ sign, SignMark sign (splitSign characters).1 ∧
      characters = sign ++ (splitSign characters).2 := by
  unfold splitSign
  split
  · exact ⟨_, .minus, rfl⟩
  · exact ⟨_, .plus, rfl⟩
  · exact ⟨_, .absent, rfl⟩

theorem DigitRun.head (run : DigitRun characters) :
    ∃ c rest, characters = c :: rest ∧ c.isDigit = true := by
  obtain ⟨some, all⟩ := run
  obtain ⟨c, rest, same⟩ := List.exists_cons_of_ne_nil some
  exact ⟨c, rest, same, all c (same ▸ List.mem_cons_self)⟩

theorem Significand.head {whole fraction : List Char}
    (significand : Significand characters whole fraction) :
    ∃ c rest, characters = c :: rest ∧ (c.isDigit = true ∨ c = '.') := by
  cases significand with
  | whole run =>
      obtain ⟨c, rest, same, digit⟩ := run.head
      exact ⟨c, rest, same, .inl digit⟩
  | pointed run =>
      obtain ⟨c, rest, rfl, digit⟩ := run.head
      exact ⟨c, _, rfl, .inl digit⟩
  | fraction => exact ⟨'.', _, rfl, .inr rfl⟩

theorem bare_of_head
    (head : ∃ c rest, characters = c :: rest ∧ (c.isDigit = true ∨ c = '.')) :
    Bare characters := by
  obtain ⟨c, rest, rfl, kind⟩ := head
  refine bare_cons ?_ ?_ rest
  · rintro rfl
    exact absurd kind (by decide)
  · rintro rfl
    exact absurd kind (by decide)

theorem DigitRun.bare (run : DigitRun characters) : Bare characters := by
  obtain ⟨c, rest, same, digit⟩ := run.head
  exact bare_of_head ⟨c, rest, same, .inl digit⟩

theorem readPower_eq_some_iff {power : Int} :
    readPower characters = some power ↔ Power characters power := by
  constructor
  · intro read
    cases characters with
    | nil =>
        cases read
        exact .absent
    | cons mark rest =>
        obtain ⟨sign, signs, same⟩ := exists_signMark rest
        simp only [readPower] at read
        generalize splitSign rest = split at read signs same
        obtain ⟨negative, digits⟩ := split
        split at read
        · next marks =>
            split at read
            · next run =>
                cases read
                rw [same]
                exact .marked marks signs ⟨run.1, List.all_eq_true.mp run.2⟩
            · cases read
        · cases read
  · intro exponent
    cases exponent with
    | absent => rfl
    | marked marks signs run =>
        simp only [readPower, if_pos marks, signs.splitSign_eq run.bare]
        rw [if_pos ⟨run.1, List.all_eq_true.mpr run.2⟩]

/-- After the digits of a significand comes neither a digit nor a point. -/
theorem Power.head {power : Int} (exponent : Power characters power)
    (same : characters = c :: rest) : c.isDigit = false ∧ c ≠ '.' := by
  cases exponent with
  | absent => cases same
  | marked marks =>
      cases same
      rcases marks with rfl | rfl <;> decide

theorem spanDigits_exact (all : ∀ c ∈ characters, c.isDigit = true)
    (ends : ∀ c tail, rest = c :: tail → c.isDigit = false) :
    spanDigits (characters ++ rest) = (characters, rest) := by
  have stops : spanDigits rest = ([], rest) := by
    cases rest with
    | nil => rfl
    | cons c tail => simp [spanDigits, ends c tail rfl]
  rw [Token.spanDigits_of_digits all, stops, List.append_nil]

theorem readDecimal_whole (plain : ∀ inside, (spanDigits characters).2 ≠ '.' :: inside) :
    readDecimal characters =
      if (spanDigits characters).1 = [] then none
      else (readPower (spanDigits characters).2).map
        (Decimal.ofParts (spanDigits characters).1 []) := by
  simp only [readDecimal, and_true]

theorem readDecimal_pointed {inside : List Char}
    (pointed : (spanDigits characters).2 = '.' :: inside) :
    readDecimal characters =
      if (spanDigits characters).1 = [] ∧ (spanDigits inside).1 = [] then none
      else (readPower (spanDigits inside).2).map
        (Decimal.ofParts (spanDigits characters).1 (spanDigits inside).1) := by
  simp only [readDecimal, pointed]

theorem plain_of_readDecimal {decimal : Decimal} (read : readDecimal characters = some decimal) :
    Plain characters decimal := by
  have front : ∀ c ∈ (spanDigits characters).1, c.isDigit = true :=
    fun c member => List.mem_takeWhile_imp member
  have split := spanDigits_append characters
  -- Whether a point follows the first digits tells which of the two readings took place.
  by_cases plain : ∀ inside, (spanDigits characters).2 ≠ '.' :: inside
  · rw [readDecimal_whole plain] at read
    split at read
    · cases read
    · next some =>
        obtain ⟨power, exponent, rfl⟩ := Option.map_eq_some_iff.mp read
        have parts := Plain.parts (.whole ⟨some, front⟩) (readPower_eq_some_iff.mp exponent)
        rwa [split] at parts
  · obtain ⟨inside, pointed⟩ : ∃ inside, (spanDigits characters).2 = '.' :: inside := by
      simpa only [not_forall, not_not] using plain
    have behind : ∀ c ∈ (spanDigits inside).1, c.isDigit = true :=
      fun c member => List.mem_takeWhile_imp member
    rw [readDecimal_pointed pointed] at read
    split at read
    · cases read
    · next some =>
        obtain ⟨power, exponent, rfl⟩ := Option.map_eq_some_iff.mp read
        have whole : characters = ((spanDigits characters).1 ++ '.' :: (spanDigits inside).1) ++
            (spanDigits inside).2 := by
          rw [List.append_assoc, List.cons_append, spanDigits_append, ← pointed, split]
        have significand : Significand
            ((spanDigits characters).1 ++ '.' :: (spanDigits inside).1)
            (spanDigits characters).1 (spanDigits inside).1 := by
          by_cases none : (spanDigits characters).1 = []
          · rw [none]
            exact .fraction ⟨fun none' => some ⟨none, none'⟩, behind⟩
          · exact .pointed ⟨none, front⟩ behind
        have parts := Plain.parts significand (readPower_eq_some_iff.mp exponent)
        rwa [← whole] at parts

theorem readDecimal_of_plain {decimal : Decimal} (plain : Plain characters decimal) :
    readDecimal characters = some decimal := by
  cases plain with
  | @parts front back whole fraction power significand exponent =>
      have read := readPower_eq_some_iff.mpr exponent
      have ends : ∀ c tail, back = c :: tail → c.isDigit = false :=
        fun c tail same => (exponent.head same).1
      cases significand with
      | whole run =>
          have spanned := spanDigits_exact run.2 ends
          rw [readDecimal_whole, spanned, if_neg run.1, read]
          · rfl
          · rw [spanned]
            exact fun inside same => (exponent.head same).2 rfl
      | pointed run all =>
          have spanned : spanDigits (whole ++ '.' :: (fraction ++ back)) =
              (whole, '.' :: (fraction ++ back)) :=
            spanDigits_exact run.2 (by
              intro c tail same
              cases same
              decide)
          rw [List.append_assoc, List.cons_append, readDecimal_pointed (by rw [spanned]), spanned,
            spanDigits_exact all ends, if_neg (fun none => run.1 none.1), read]
          rfl
      | fraction run =>
          have spanned : spanDigits ('.' :: (fraction ++ back)) =
              ([], '.' :: (fraction ++ back)) := rfl
          rw [List.cons_append, readDecimal_pointed (by rw [spanned]), spanned,
            spanDigits_exact run.2 ends, if_neg (fun none => run.1 none.2), read]
          rfl

theorem readDecimal_eq_some_iff {decimal : Decimal} :
    readDecimal characters = some decimal ↔ Plain characters decimal :=
  ⟨plain_of_readDecimal, readDecimal_of_plain⟩

theorem Plain.head {decimal : Decimal} (plain : Plain characters decimal) :
    ∃ c rest, characters = c :: rest ∧ (c.isDigit = true ∨ c = '.') := by
  cases plain with
  | parts significand =>
      obtain ⟨c, rest, rfl, kind⟩ := significand.head
      exact ⟨c, _, rfl, kind⟩

theorem Plain.append_ne_nil {decimal : Decimal} (plain : Plain characters decimal)
    (sign : List Char) : sign ++ characters ≠ [] := by
  obtain ⟨c, rest, rfl, -⟩ := plain.head
  exact List.append_ne_nil_of_right_ne_nil sign (List.cons_ne_nil c rest)

theorem Plain.bare {decimal : Decimal} (plain : Plain characters decimal) : Bare characters :=
  bare_of_head plain.head

theorem all_inDecimals_of_digits (all : ∀ c ∈ characters, c.isDigit = true) :
    characters.all inDecimals = true := by
  refine List.all_eq_true.mpr fun c member => ?_
  simp [inDecimals, all c member]

theorem SignMark.all_inDecimals (signs : SignMark sign negative) :
    sign.all inDecimals = true := by
  cases signs <;> rfl

theorem Significand.all_inDecimals {whole fraction : List Char}
    (significand : Significand characters whole fraction) :
    characters.all inDecimals = true := by
  cases significand with
  | whole run => exact all_inDecimals_of_digits run.2
  | pointed run all =>
      rw [List.all_append, List.all_cons, all_inDecimals_of_digits run.2,
        all_inDecimals_of_digits all]
      rfl
  | fraction run =>
      rw [List.all_cons, all_inDecimals_of_digits run.2]
      rfl

theorem Power.all_inDecimals {power : Int} (exponent : Power characters power) :
    characters.all inDecimals = true := by
  cases exponent with
  | absent => rfl
  | marked marks signs run =>
      rw [List.all_cons, List.all_append, signs.all_inDecimals, all_inDecimals_of_digits run.2]
      rcases marks with rfl | rfl <;> rfl

theorem Plain.all_inDecimals {decimal : Decimal} (plain : Plain characters decimal) :
    characters.all inDecimals = true := by
  cases plain with
  | parts significand exponent =>
      rw [List.all_append, significand.all_inDecimals, exponent.all_inDecimals]
      rfl

variable {name : List Char} {x : Float}

theorem named?_eq_some_iff : named? name = some x ↔ Named name x := by
  constructor
  · intro found
    simp only [named?] at found
    split at found
    · next same =>
        cases found
        exact .nan same
    · split at found
      · next same =>
          cases found
          exact .infinity same
      · cases found
  · intro named
    cases named with
    | nan same => simp [named?, same]
    | infinity same =>
        have other : name.map Char.toLower ≠ "nan".toList := by
          rcases same with same | same <;> rw [same] <;> decide
        simp only [named?, if_neg other, if_pos same]

theorem Named.head (named : Named name x) :
    ∃ c rest, name = c :: rest ∧ (c.toLower = 'n' ∨ c.toLower = 'i') := by
  cases name with
  | nil =>
      cases named with
      | nan same => cases same
      | infinity same => rcases same with same | same <;> cases same
  | cons c rest =>
      refine ⟨c, rest, rfl, ?_⟩
      cases named with
      | nan same => exact .inl (List.cons.inj same).1
      | infinity same =>
          rcases same with same | same
          · exact .inr (List.cons.inj same).1
          · exact .inr (List.cons.inj same).1

theorem Named.not_inDecimals (named : Named name x) :
    ∃ c rest, name = c :: rest ∧ inDecimals c = false := by
  obtain ⟨c, rest, same, letter⟩ := named.head
  refine ⟨c, rest, same, ?_⟩
  by_contra written
  obtain ⟨first, second⟩ := toLower_of_inDecimals (by simpa using written)
  exact letter.elim first second

theorem Named.bare (named : Named name x) : Bare name := by
  obtain ⟨c, rest, rfl, outside⟩ := named.not_inDecimals
  refine bare_cons ?_ ?_ rest
  · rintro rfl
    cases outside
  · rintro rfl
    cases outside

theorem Named.not_plain (named : Named name x) {decimal : Decimal} : ¬Plain name decimal := by
  intro plain
  obtain ⟨c, rest, rfl, outside⟩ := named.not_inDecimals
  have written := List.all_eq_true.mp plain.all_inDecimals c List.mem_cons_self
  rw [outside] at written
  cases written

theorem named_infinity : Named "Infinity".toList (1.0 / 0.0) := .infinity (.inr (by decide))

theorem readFloat_eq_some_iff : readFloat characters = some x ↔ Floating characters x := by
  constructor
  · intro read
    obtain ⟨sign, signs, same⟩ := exists_signMark characters
    rw [readFloat] at read
    generalize splitSign characters = split at read signs same
    obtain ⟨negative, unsigned⟩ := split
    dsimp only at read signs same
    rw [same]
    split at read
    · next decimal found =>
        cases read
        exact .decimal signs (readDecimal_eq_some_iff.mp found)
    · obtain ⟨y, found, rfl⟩ := Option.map_eq_some_iff.mp read
      exact .named signs (named?_eq_some_iff.mp found)
  · intro floating
    cases floating with
    | decimal signs plain =>
        simp only [readFloat, signs.splitSign_eq plain.bare, readDecimal_eq_some_iff.mpr plain]
    | @named sign name negative y signs named =>
        -- Decimals are tried first, and a name is none.
        have none : readDecimal name = none := by
          refine Option.eq_none_iff_forall_ne_some.mpr fun decimal found => ?_
          exact named.not_plain (readDecimal_eq_some_iff.mp found)
        simp only [readFloat, signs.splitSign_eq named.bare, none,
          named?_eq_some_iff.mpr named, Option.map_some]

/-- Behind the filter the general reading takes the decimals and nothing else. -/
theorem readSigned_eq_some_iff :
    readSigned characters = some x ↔ characters ≠ [] ∧ Numeral characters x := by
  constructor
  · intro read
    obtain ⟨sign, signs, same⟩ := exists_signMark characters
    rw [readSigned] at read
    generalize divided : splitSign characters = split at read signs same
    obtain ⟨negative, unsigned⟩ := split
    dsimp only at read signs same
    split at read
    · next infinite =>
        cases read
        rw [same, infinite]
        exact ⟨List.append_ne_nil_of_right_ne_nil _ (by decide), .infinity signs⟩
    · split at read
      · next written =>
          cases readFloat_eq_some_iff.mp read with
          | decimal signs' plain => exact ⟨plain.append_ne_nil _, .decimal signs' plain⟩
          | named signs' named =>
              -- The sign is taken off twice, and what passed the filter is the name.
              rw [signs'.splitSign_eq named.bare] at divided
              cases divided
              obtain ⟨c, rest, rfl, outside⟩ := named.not_inDecimals
              rw [List.all_cons, outside] at written
              cases written
      · cases read
  · rintro ⟨some, numeral⟩
    cases numeral with
    | blank => exact absurd rfl some
    | infinity signs =>
        simp only [readSigned, signs.splitSign_eq named_infinity.bare, if_true]
    | @decimal sign unsigned negative decimal signs plain =>
        have finite : unsigned ≠ "Infinity".toList := by
          rintro rfl
          exact named_infinity.not_plain plain
        simp only [readSigned, signs.splitSign_eq plain.bare, if_neg finite,
          plain.all_inDecimals, if_true]
        exact readFloat_eq_some_iff.mpr (.decimal signs plain)

end

theorem Named.of_numeral {sign name : List Char} {negative : Bool} {x y : Float}
    (named : Named name x) (signs : SignMark sign negative)
    (numeral : Numeral (sign ++ name) y) : name = "Infinity".toList := by
  have divided := signs.splitSign_eq named.bare
  generalize sign ++ name = characters at divided numeral
  cases numeral with
  | blank =>
      cases divided
      obtain ⟨c, rest, same, -⟩ := named.head
      cases same
  | infinity signs' =>
      rw [signs'.splitSign_eq named_infinity.bare] at divided
      cases divided
      rfl
  | decimal signs' plain =>
      rw [signs'.splitSign_eq plain.bare] at divided
      cases divided
      exact absurd plain named.not_plain

/-- The marks in front of whole-number digits, each with the base that it announces. -/
def marks : List (Char × Nat) :=
  [('x', 16), ('X', 16), ('o', 8), ('O', 8), ('b', 2), ('B', 2)]

theorem baseOfMark_eq_some_iff {mark : Char} {base : Nat} :
    baseOfMark mark = some base ↔ (mark, base) ∈ marks := by
  constructor
  · intro announced
    unfold baseOfMark at announced
    split at announced <;> cases announced <;> decide
  · intro listed
    simp only [marks, List.mem_cons, Prod.mk.injEq, List.not_mem_nil, or_false] at listed
    rcases listed with ⟨rfl, rfl⟩ | ⟨rfl, rfl⟩ | ⟨rfl, rfl⟩ | ⟨rfl, rfl⟩ | ⟨rfl, rfl⟩ |
      ⟨rfl, rfl⟩ <;> rfl

theorem readTrimmed_unmarked {c : Char} {rest : List Char}
    (unmarked : ∀ mark tail base, c :: rest = '0' :: mark :: tail → (mark, base) ∉ marks) :
    readTrimmed (c :: rest) = readSigned (c :: rest) := by
  unfold readTrimmed
  split
  · next same => cases same
  · next mark tail same =>
      have none : baseOfMark mark = none := by
        refine Option.eq_none_iff_forall_ne_some.mpr fun base announced => ?_
        exact unmarked mark tail base same (baseOfMark_eq_some_iff.mp announced)
      rw [none, same]
  · rfl

theorem read_eq_some_iff {text : String} {inner : List Char}
    (trimmed : Text.Trimmed text.toList inner)
    (unmarked : ∀ mark rest base, inner = '0' :: mark :: rest → (mark, base) ∉ marks)
    {x : Float} : read text = some x ↔ Numeral inner x := by
  rw [read, trimmed.trim_eq]
  cases inner with
  | nil =>
      constructor
      · intro zero
        cases zero
        exact .blank
      · intro numeral
        generalize empty : ([] : List Char) = characters at numeral
        cases numeral with
        | blank => rfl
        | infinity => exact absurd empty.symm (List.append_ne_nil_of_right_ne_nil _ (by decide))
        | decimal signs plain => exact absurd empty.symm (plain.append_ne_nil _)
  | cons c rest =>
      rw [readTrimmed_unmarked unmarked, readSigned_eq_some_iff, and_iff_right]
      exact List.cons_ne_nil c rest

/-- A text that announces no base has a numeric reading exactly if what its white space
surrounds is a numeral. The general reading of floating-point numbers takes each name of a
number, with any sign and in letters of either case, but no such text has a numeric reading
unless the name is spelled `Infinity`. -/
theorem numerals_exact {text : String} {inner : List Char}
    (trimmed : Text.Trimmed text.toList inner)
    (unmarked : ∀ mark rest base, inner = '0' :: mark :: rest → (mark, base) ∉ marks) :
    (∀ x, (Value.text text).number? = some x ↔ Numeral inner x) ∧
    ∀ sign negative name x, SignMark sign negative → Named name x → inner = sign ++ name →
      readFloat inner = some (signed negative x) ∧
      (name ≠ "Infinity".toList → (Value.text text).number? = none) := by
  have exact : ∀ x, (Value.text text).number? = some x ↔ Numeral inner x :=
    fun x => read_eq_some_iff trimmed unmarked
  refine ⟨exact, ?_⟩
  intro sign negative name x signs named same
  refine ⟨readFloat_eq_some_iff.mpr (same ▸ .named signs named), fun other => ?_⟩
  refine Option.eq_none_iff_forall_ne_some.mpr fun y found => other ?_
  exact named.of_numeral signs (same ▸ (exact y).mp found)

theorem numerals_exact_padded :
    Text.Trimmed "\u2003-.5E+3\n".toList "-.5E+3".toList ∧
    Numeral "-.5E+3".toList (-500) ∧
    (Value.text "\u2003-.5E+3\n").number? = some (-500) ∧
    readFloat "+iNF".toList = some (1.0 / 0.0) ∧
    (Value.text "+iNF").number? = none := by
  have trimmed : Text.Trimmed "\u2003-.5E+3\n".toList "-.5E+3".toList :=
    Text.trim_eq_iff.mp (by decide)
  have named : Text.Trimmed "+iNF".toList "+iNF".toList := Text.trim_eq_iff.mp (by decide)
  have numeral : Numeral "-.5E+3".toList (-500) := by
    have half : DigitRun ['5'] := ⟨by decide, by simp⟩
    have power : DigitRun ['3'] := ⟨by decide, by simp⟩
    have parts : Plain ['.', '5', 'E', '+', '3'] ⟨5, 2⟩ :=
      .parts (.fraction half) (.marked (.inr rfl) .plus power)
    have value : signed true (Decimal.mk 5 2).toFloat = -500 := by decide +kernel
    rw [← value]
    exact .decimal .minus parts
  obtain ⟨reads, -⟩ := numerals_exact trimmed (by
    intro mark rest base same
    cases same)
  obtain ⟨taken, refused⟩ := (numerals_exact named (by
    intro mark rest base same
    cases same)).2 ['+'] false "iNF".toList _ .plus (.infinity (.inl (by decide))) rfl
  exact ⟨trimmed, numeral, (reads _).mpr numeral, taken, refused (by decide)⟩

end ReactiveView.Number
