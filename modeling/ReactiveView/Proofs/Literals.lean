import ReactiveView.Proofs.Printing
import ReactiveView.Proofs.Shortening
import ReactiveView.Proofs.Tiling

/-!
# Numbers among the expressions

A number that is written without an exponent is read back as it is: what stands there has the
value of the shortest decimal, and that rounds to the number. A number with an exponent is no
expression, and infinity is a name.
-/

namespace ReactiveView.Number

set_option autoImplicit false

open Float.Model (UnpackedFloat Format)
open Float.Model.UnpackedFloat

theorem head_toDigits {n : Nat} (positive : 0 < n) :
    ∃ c rest, Nat.toDigits 10 n = c :: rest ∧ c ≠ '0' := by
  induction n using Nat.strongRecOn with
  | ind n induction =>
      rw [Nat.toDigits_eq_if (by decide)]
      split
      · next small =>
          refine ⟨n.digitChar, [], rfl, ?_⟩
          interval_cases n <;> decide
      · next large =>
          obtain ⟨c, rest, same, nonzero⟩ := induction (n / 10) (by omega) (by omega)
          exact ⟨c, rest ++ [(n % 10).digitChar], by rw [same, List.cons_append], nonzero⟩

namespace Decimal

variable {decimal : Decimal}

theorem wholeOfDigits_eq (digits : List Char) :
    wholeOfDigits digits = Nat.ofDigitChars 10 digits 0 := by
  rw [wholeOfDigits, valueOfDigits, List.foldl_map, Nat.ofDigitChars]
  congr 1
  funext value c
  rw [Nat.mul_comm]

theorem wholeOfDigits_zeros (digits : List Char) (count : Nat) :
    wholeOfDigits (digits ++ List.replicate count '0') = wholeOfDigits digits * 10 ^ count := by
  rw [wholeOfDigits_eq, wholeOfDigits_eq, Nat.ofDigitChars_append, Nat.ofDigitChars_replicate_zero,
    Nat.mul_comm]

theorem wholeOfDigits_padded (digits : List Char) (count : Nat) :
    wholeOfDigits (List.replicate count '0' ++ digits) = wholeOfDigits digits := by
  rw [wholeOfDigits_eq, wholeOfDigits_eq, Nat.ofDigitChars_append,
    Nat.ofDigitChars_replicate_zero, Nat.mul_zero]

theorem wholeOfDigits_written (decimal : Decimal) :
    wholeOfDigits decimal.written = decimal.digits := by
  rw [wholeOfDigits_eq, written, Nat.ofDigitChars_ten_toDigits]

theorem isDigit_of_mem_written {c : Char} (member : c ∈ decimal.written) : c.isDigit = true :=
  Nat.isDigit_of_mem_toDigits (by decide) (by decide) member

theorem exists_written (some : 0 < decimal.digits) :
    ∃ c rest, decimal.written = c :: rest ∧ c ≠ '0' ∧ c.isDigit = true ∧
      ∀ d ∈ rest, d.isDigit = true := by
  obtain ⟨c, rest, head, nonzero⟩ := head_toDigits some
  change decimal.written = c :: rest at head
  have all : ∀ d ∈ c :: rest, d.isDigit = true := fun d member =>
    isDigit_of_mem_written (head ▸ member)
  rw [List.forall_mem_cons] at all
  exact ⟨c, rest, head, nonzero, all⟩

theorem spelling_whole (some : 0 < decimal.digits) (whole : 0 ≤ decimal.exponent) :
    ∃ other : Decimal, other.value = decimal.value ∧
      Token.Spelling (decimal.written ++ List.replicate decimal.exponent.toNat '0')
        (.number other.toFloat) := by
  obtain ⟨c, rest, head, nonzero, first, all⟩ := exists_written some
  refine ⟨ofParts (decimal.written ++ List.replicate decimal.exponent.toNat '0') [] 0, ?_,
    .whole ?_⟩
  · rw [ofParts, List.append_nil, wholeOfDigits_zeros, wholeOfDigits_written, value, value,
      zpow_eq_div 10 (by norm_num) decimal.exponent, show (-decimal.exponent).toNat = 0 by omega]
    simp
  · rw [head, List.cons_append]
    refine .digits first nonzero fun d member => ?_
    rcases List.mem_append.mp member with member | member
    · exact all d member
    · rw [List.eq_of_mem_replicate member]
      decide

/-- A point between the digits. -/
theorem spelling_split (some : 0 < decimal.digits) {front : Nat}
    (inside : decimal.exponent + decimal.written.length = front + 1)
    (fractional : decimal.exponent < 0) :
    ∃ other : Decimal, other.value = decimal.value ∧
      Token.Spelling
        (decimal.written.take (front + 1) ++ '.' :: decimal.written.drop (front + 1))
        (.number other.toFloat) := by
  obtain ⟨c, rest, head, nonzero, first, all⟩ := exists_written some
  have same : ofParts (decimal.written.take (front + 1)) (decimal.written.drop (front + 1)) 0 =
      decimal := by
    rw [ofParts, List.take_append_drop, wholeOfDigits_written, List.length_drop,
      show 0 - ((decimal.written.length - (front + 1) : Nat) : Int) = decimal.exponent by omega]
  refine ⟨ofParts (decimal.written.take (front + 1)) (decimal.written.drop (front + 1)) 0,
    congrArg value same, .pointed ?_ ?_ ?_⟩
  · rw [head, List.take_succ_cons]
    exact .digits first nonzero fun d member => all d (List.mem_of_mem_take member)
  · rw [ne_eq, List.drop_eq_nil_iff]
    omega
  · exact fun d member => isDigit_of_mem_written (List.mem_of_mem_drop member)

theorem spelling_fraction (some : 0 < decimal.digits) {zeros : Nat}
    (outside : decimal.exponent + decimal.written.length = -zeros) :
    ∃ other : Decimal, other.value = decimal.value ∧
      Token.Spelling ('0' :: '.' :: (List.replicate zeros '0' ++ decimal.written))
        (.number other.toFloat) := by
  obtain ⟨c, rest, head, -⟩ := exists_written some
  have same : ofParts ['0'] (List.replicate zeros '0' ++ decimal.written) 0 = decimal := by
    have padded : ['0'] ++ (List.replicate zeros '0' ++ decimal.written) =
        List.replicate (zeros + 1) '0' ++ decimal.written := rfl
    rw [ofParts, padded, wholeOfDigits_padded, wholeOfDigits_written, List.length_append,
      List.length_replicate,
      show 0 - ((zeros + decimal.written.length : Nat) : Int) = decimal.exponent by omega]
  refine ⟨ofParts ['0'] (List.replicate zeros '0' ++ decimal.written) 0, congrArg value same,
    .pointed .zero ?_ ?_⟩
  · rw [head]
    exact List.append_ne_nil_of_right_ne_nil _ (List.cons_ne_nil c rest)
  · intro d member
    rcases List.mem_append.mp member with member | member
    · rw [List.eq_of_mem_replicate member]
      decide
    · exact isDigit_of_mem_written member

/-- Without an exponent, a decimal is written as a number of its value. -/
theorem spelling_positional (some : 0 < decimal.digits) :
    ∃ other : Decimal, other.value = decimal.value ∧
      Token.Spelling decimal.positional (.number other.toFloat) := by
  rw [positional]
  split
  · next whole => exact spelling_whole some whole
  · next fractional =>
      split
      · next inside =>
          obtain ⟨front, counted⟩ : ∃ front : Nat,
              (decimal.exponent + decimal.written.length).toNat = front + 1 :=
            ⟨(decimal.exponent + decimal.written.length).toNat - 1, by omega⟩
          rw [counted]
          exact spelling_split some (by omega) (by omega)
      · next outside =>
          exact spelling_fraction some (by omega)

/-- With an exponent, a decimal begins with a number and goes on with a letter. -/
theorem scan_scientific (some : 0 < decimal.digits) :
    ∃ c tail number sign rest, decimal.scientific = c :: tail ∧ c.isDigit = true ∧
      Token.continuesWord sign = false ∧
      Token.scan decimal.scientific = .some (.number number, 'e' :: sign :: rest) := by
  obtain ⟨c, fraction, head, nonzero, first, all⟩ := exists_written some
  have whole : Token.WholeDigits [c] := .digits first nonzero nofun
  obtain ⟨sign, marked⟩ : ∃ sign, (if decimal.leadingExponent < 0 then '-' else '+') = sign :=
    ⟨_, rfl⟩
  obtain ⟨power, counted⟩ : ∃ power, Nat.toDigits 10 decimal.leadingExponent.natAbs = power :=
    ⟨_, rfl⟩
  have plain : Token.continuesWord sign = false := by
    rw [← marked]
    split <;> decide
  have spelled : decimal.scientific =
      [c] ++ (if fraction.isEmpty then [] else '.' :: fraction) ++ 'e' :: sign :: power := by
    rw [scientific, head, marked, counted]
    rfl
  rw [spelled]
  cases fraction with
  | nil =>
      have spanned := Token.spanWhole_exact whole ('e' :: sign :: power) (by
        intro d rest same
        cases same
        decide)
      have taken : Token.scanNumber ([c] ++ 'e' :: sign :: power) = _ :=
        Token.scanNumber_plain (by
          rw [spanned]
          exact nofun)
      rw [spanned] at taken
      exact ⟨c, 'e' :: sign :: power, _, sign, power, rfl, first, plain,
        (Token.scan_of_isDigit first _).trans (congrArg _ taken)⟩
  | cons d more =>
      have taken := Token.scanNumber_of_pointed whole (List.cons_ne_nil d more) all
        ('e' :: sign :: power)
      exact ⟨c, '.' :: d :: (more ++ 'e' :: sign :: power), _, sign, power, rfl, first, plain,
        (Token.scan_of_isDigit first _).trans (congrArg _ taken)⟩

end Decimal

end ReactiveView.Number

namespace ReactiveView.Expression

set_option autoImplicit false

open Number (Decimal Binary)

/-- An expression with something behind it that does not continue it is none. -/
theorem ofTokens?_of_left {e : Expression} {tokens rest : List Token} {token : Token}
    (derived : Derives .expression e tokens) (closes : Closes (token :: rest)) :
    ofTokens? (tokens ++ token :: rest) = none := by
  have enough : tokens.length < (tokens ++ token :: rest).length + 1 := by
    rw [List.length_append]
    omega
  have takes := (complete_readNested ((tokens ++ token :: rest).length + 1)).takes derived enough
    closes
  obtain ⟨shorter, read⟩ := takes.read
  rw [ofTokens?, read]

theorem closes_identifier (name : String) (rest : List Token) :
    Closes (.identifier name :: rest) :=
  ⟨nofun, nofun⟩

theorem derives_number (value : Float) :
    Derives .expression (.literal (.number value)) [.number value] :=
  derives_expression (derives_tokens (.literal (.number value)))

theorem parse?_of_scan {source : String} {c sign : Char} {tail rest : List Char} {value : Float}
    (spelled : source.toList = c :: tail) (digit : c.isDigit = true)
    (plain : Token.continuesWord sign = false)
    (scanned : Token.scan source.toList = some (.number value, 'e' :: sign :: rest)) :
    parse? source = none := by
  have visible : source.toList.dropWhile Text.isBlank = source.toList := by
    rw [spelled]
    refine List.dropWhile_cons_of_neg ?_
    simp [Token.isBlank_of_continuesWord (Token.continuesWord_of_isDigit digit)]
  have word : Token.scan ('e' :: sign :: rest) = some (.identifier "e", sign :: rest) := by
    rw [Token.scan_of_startsWord (by decide), List.takeWhile_cons_of_neg (by simp [plain]),
      List.dropWhile_cons_of_neg (by simp [plain])]
    rfl
  rw [parse?, Option.bind_eq_none_iff]
  intro lexemes cut
  have cuts := Token.cuts_of_lexemes cut
  generalize lexemes.map Lexeme.token = tokens at cuts
  cases cuts with
  | done blank =>
      rw [visible, spelled] at blank
      cases blank
  | next scanned' after =>
      rw [visible, scanned] at scanned'
      cases scanned'
      cases after with
      | done blank =>
          rw [List.dropWhile_cons_of_neg (by decide)] at blank
          cases blank
      | next scanned'' after' =>
          rw [List.dropWhile_cons_of_neg (by decide), word] at scanned''
          cases scanned''
          exact ofTokens?_of_left (derives_number value) (closes_identifier "e" _)

/-- A spelling of one token is read as the literal. -/
theorem parse?_of_spelling {source : String} {value : Float}
    (spelling : Token.Spelling source.toList (.number value)) :
    parse? source = some (.literal (.number value)) := by
  rw [parse?, Token.spelling_iff.mp spelling]
  exact ofTokens?_of_derives (derives_number value)

theorem shown_number (value : Float) :
    (Expression.literal (.number value)).shown = Number.text value :=
  String.ofList_toList

theorem ofModel_pack (value : Float) :
    Float.ofModel (Float.Model.pack value.toModel.unpack) = value := by
  rw [Number.pack_unpack]

theorem unsigned_of_spelling {characters : List Char} {value : Float}
    (spelling : Token.Spelling characters (.number value)) :
    Number.Unsigned value.toModel.unpack := by
  generalize spelled : Token.number value = token at spelling
  cases spelling with
  | whole whole =>
      cases spelled
      exact Decimal.unsigned_toFloat _
  | pointed whole some all =>
      cases spelled
      exact Decimal.unsigned_toFloat _
  | quoted mark unclosed => cases spelled
  | word starts continues =>
      obtain ⟨constant, same⟩ | same := Token.ofWord_cases _
      · rw [same] at spelled
        cases spelled
      · rw [same] at spelled
        cases spelled
  | symbol mark => cases spelled

section

open Float.Model.UnpackedFloat (Sign)

variable {value : Float} {mantissa : Nat} {power : Int} {positive : 0 < mantissa}

theorem text_of_finite (held : value.toModel.unpack = .finite .positive mantissa power positive) :
    (Number.text value).toList = Number.magnitudeText ⟨mantissa, power⟩ := by
  rw [Number.text, held, String.toList_ofList]
  rfl

/-- In the range without exponents, what is written for a number is one of its spellings. -/
theorem parse?_of_positional
    (held : value.toModel.unpack = .finite .positive mantissa power positive)
    (plain : 1e-6 ≤ value ∧ value < 1e21) :
    parse? (Number.text value) = some (.literal (.number value)) := by
  obtain ⟨canonical, range⟩ := Number.canonical_of_unpack held
  obtain ⟨other, same, spelling⟩ := Decimal.spelling_positional
    (Binary.digits_shortest_pos canonical)
  have rounds := same ▸ Binary.rounds_shortest canonical
  have back : other.toFloat = value := by
    rw [← ofModel_pack value, held, ← Decimal.toFloat_of_rounds canonical range rounds]
  refine parse?_of_spelling ?_
  rw [text_of_finite held, Number.magnitudeText, if_pos ((Number.positional_iff held).mpr plain),
    ← back]
  exact spelling

theorem parse?_of_scientific
    (held : value.toModel.unpack = .finite .positive mantissa power positive)
    (far : ¬(1e-6 ≤ value ∧ value < 1e21)) : parse? (Number.text value) = none := by
  have canonical := (Number.canonical_of_unpack held).1
  obtain ⟨c, tail, number, sign, rest, spelled, digit, plain, scanned⟩ :=
    Decimal.scan_scientific (Binary.digits_shortest_pos canonical)
  have written : (Number.text value).toList =
      (Binary.mk mantissa power).shortest.scientific := by
    rw [text_of_finite held, Number.magnitudeText,
      if_neg (mt (Number.positional_iff held).mp far)]
  rw [← written] at spelled scanned
  exact parse?_of_scan spelled digit plain scanned

end

/-- A number is read back from what is written for it exactly if it is zero, or at least a
millionth and less than a sextillion. Beyond that an exponent is written, which no expression
has, and a number past all finite ones is written as a name. -/
theorem literal_reads_back (source : String) (value : Float) (start stop : Nat)
    (lexed : Token.lexemes source = some [⟨.number value, start, stop⟩]) :
    parse? source = some (.literal (.number value)) ∧
    (value = 0 ∨ 1e-6 ≤ value ∧ value < 1e21 →
      parse? (Expression.literal (.number value)).shown = some (.literal (.number value))) ∧
    (value = 1.0 / 0.0 →
      parse? (Expression.literal (.number value)).shown = some (.identifier "Infinity")) ∧
    (¬(value = 0 ∨ 1e-6 ≤ value ∧ value < 1e21) → value ≠ 1.0 / 0.0 →
      parse? (Expression.literal (.number value)).shown = none) := by
  have unsigned : Number.Unsigned value.toModel.unpack := by
    have cuts := Token.cuts_of_lexemes lexed
    cases cuts with
    | next scanned after =>
        obtain ⟨front, spelling, -⟩ := Token.spelling_of_scan scanned
        exact unsigned_of_spelling spelling
  refine ⟨?_, ?_⟩
  · rw [parse?, lexed]
    exact ofTokens?_of_derives (derives_number value)
  · have packed := ofModel_pack value
    generalize held : value.toModel.unpack = number at unsigned packed
    cases unsigned with
    | zero =>
        have none : value = 0 := packed.symm.trans (by decide +kernel)
        subst none
        refine ⟨fun _ => by decide +kernel, fun infinite => ?_, fun far => absurd (.inl rfl) far⟩
        exact absurd infinite (by decide +kernel)
    | infinity =>
        have infinite : value = 1.0 / 0.0 := packed.symm.trans (by decide +kernel)
        subst infinite
        refine ⟨fun near => ?_, fun _ => by decide +kernel, fun _ other => absurd rfl other⟩
        exact absurd near (by decide +kernel)
    | @finite mantissa power positive =>
        have some : value ≠ 0 := by
          rintro rfl
          cases held
        have bounded : value ≠ 1.0 / 0.0 := by
          rintro rfl
          cases held
        rw [shown_number]
        refine ⟨fun near => ?_, fun infinite => absurd infinite bounded, fun far _ => ?_⟩
        · exact parse?_of_positional held (near.resolve_left some)
        · exact parse?_of_scientific held (mt .inr far)

theorem literal_reads_back_sextillion :
    Token.lexemes "1000000000000000000000" = some [⟨.number 1e21, 0, 22⟩] ∧
    Number.text 1e21 = "1e+21" ∧
    parse? "1000000000000000000000" = some (.literal (.number 1e21)) ∧
    parse? (Expression.literal (.number 1e21)).shown = none := by
  have lexed : Token.lexemes "1000000000000000000000" = some [⟨.number 1e21, 0, 22⟩] := by
    decide +kernel
  obtain ⟨read, -, -, lost⟩ := literal_reads_back _ _ _ _ lexed
  exact ⟨lexed, by decide +kernel, read, lost (by decide +kernel) (by decide +kernel)⟩

/-- Not every number that is read is read back from what is written for it. -/
theorem literal_lost :
    ¬∀ (source : String) (value : Float) (start stop : Nat),
      Token.lexemes source = some [⟨.number value, start, stop⟩] →
        parse? (Expression.literal (.number value)).shown = some (.literal (.number value)) := by
  intro back
  have read := back "1000000000000000000000" 1e21 0 22 (by decide +kernel)
  revert read
  decide +kernel

end ReactiveView.Expression
