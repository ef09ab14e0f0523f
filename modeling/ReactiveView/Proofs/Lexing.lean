import Mathlib.Data.List.TakeWhile
import ReactiveView.Expression.Parser
import ReactiveView.Expression.Printer

/-!
# Cutting a text that is put together

A text in front of another is cut as it is alone if nothing at the start of the
other continues its last token. So the cut of a text that is written piece by piece
follows from the cuts of the pieces, and the places of the tokens do not matter.
-/

namespace ReactiveView.Token

set_option autoImplicit false

open ReactiveView.Number (spanDigits)

/-- The characters are cut into the tokens, wherever in a source they stand. -/
inductive Cuts : List Char → List Token → Prop where
  | done {characters : List Char} (blank : characters.dropWhile Text.isBlank = []) :
      Cuts characters []
  | next {characters rest : List Char} {token : Token} {tokens : List Token}
      (scanned : scan (characters.dropWhile Text.isBlank) = some (token, rest))
      (after : Cuts rest tokens) :
      Cuts characters (token :: tokens)

/-- Nothing in front continues a word, a number or a symbol that ends before it. -/
def Apart (characters : List Char) : Prop :=
  ∀ c rest, characters = c :: rest → continuesWord c = false ∧ c ≠ '=' ∧
    (c = '.' → ∀ d tail, rest = d :: tail → d.isDigit = false)

/-- The characters of a name: they make a word that is not kept for a constant. -/
def Names (characters : List Char) : Prop :=
  ∃ c rest, characters = c :: rest ∧ startsWord c = true ∧
    (∀ d ∈ rest, continuesWord d = true) ∧
      ofWord (String.ofList characters) = .identifier (String.ofList characters)

theorem isUpper_iff (c : Char) : c.isUpper = true ↔ 65 ≤ c.toNat ∧ c.toNat ≤ 90 := by
  change decide (65 ≤ c.val ∧ c.val ≤ 90) = true ↔ _
  simp only [decide_eq_true_eq, UInt32.le_iff_toNat_le]
  rfl

theorem isLower_iff (c : Char) : c.isLower = true ↔ 97 ≤ c.toNat ∧ c.toNat ≤ 122 := by
  change (decide (97 ≤ c.val) && decide (c.val ≤ 122)) = true ↔ _
  simp only [Bool.and_eq_true, decide_eq_true_eq, UInt32.le_iff_toNat_le]
  rfl

theorem isDigit_iff (c : Char) : c.isDigit = true ↔ 48 ≤ c.toNat ∧ c.toNat ≤ 57 :=
  Char.isDigit_iff_toNat

theorem isAlpha_iff (c : Char) : c.isAlpha = true ↔ c.isUpper = true ∨ c.isLower = true := by
  change (c.isUpper || c.isLower) = true ↔ _
  rw [Bool.or_eq_true]

theorem isBlank_of_continuesWord {c : Char} (continues : continuesWord c = true) :
    Text.isBlank c = false := by
  simp only [continuesWord, Char.isAlphanum, Bool.or_eq_true, isAlpha_iff, isUpper_iff,
    isLower_iff, isDigit_iff] at continues
  simp only [Text.isBlank, Text.blankRanges, List.any_cons, List.any_nil, Bool.or_false,
    Bool.or_eq_false_iff, Bool.and_eq_false_iff, decide_eq_false_iff_not]
  rcases continues with (((upper | lower) | digit) | low) | dollar
  · omega
  · omega
  · omega
  · obtain rfl : c = '_' := by simpa using low
    decide
  · obtain rfl : c = '$' := by simpa using dollar
    decide

theorem isDigit_of_startsWord {c : Char} (starts : startsWord c = true) : c.isDigit = false := by
  rw [Bool.eq_false_iff, ne_eq, isDigit_iff]
  simp only [startsWord, Bool.or_eq_true, isAlpha_iff, isUpper_iff, isLower_iff] at starts
  rcases starts with ((upper | lower) | low) | dollar
  · omega
  · omega
  · obtain rfl : c = '_' := by simpa using low
    decide
  · obtain rfl : c = '$' := by simpa using dollar
    decide

theorem continuesWord_of_isDigit {c : Char} (digit : c.isDigit = true) :
    continuesWord c = true := by
  simp [continuesWord, Char.isAlphanum, digit]

theorem continuesWord_of_startsWord {c : Char} (starts : startsWord c = true) :
    continuesWord c = true := by
  simp only [startsWord, continuesWord, Char.isAlphanum, Bool.or_eq_true] at starts ⊢
  rcases starts with (letter | underscore) | dollar
  · exact .inl (.inl (.inl letter))
  · exact .inl (.inr underscore)
  · exact .inr dollar

theorem apart_nil : Apart [] := fun _ _ same => by simp at same

theorem apart_cons {c : Char} (plain : continuesWord c = false) (equal : c ≠ '=')
    (point : c ≠ '.') (rest : List Char) : Apart (c :: rest) := by
  intro d tail same
  cases same
  exact ⟨plain, equal, fun is => absurd is point⟩

theorem apart_mark {c : Char} (rest : List Char)
    (listed : c ∈ ['(', ')', '[', ']', ',', ' ']) : Apart (c :: rest) := by
  simp only [List.mem_cons, List.not_mem_nil, or_false] at listed
  rcases listed with rfl | rfl | rfl | rfl | rfl | rfl <;>
    exact apart_cons (by decide) (by decide) (by decide) rest

theorem Apart.unassigned {characters : List Char} (apart : Apart characters) (tail : List Char) :
    characters ≠ '=' :: tail := fun same => (apart '=' tail same).2.1 rfl

theorem apart_point {c : Char} (starts : startsWord c = true) (rest : List Char) :
    Apart ('.' :: c :: rest) := by
  intro d tail same
  cases same
  refine ⟨by decide, by decide, fun _ e after same => ?_⟩
  cases same
  exact isDigit_of_startsWord starts

section

variable {characters rest : List Char} {token : Token} {tokens : List Token}

theorem Cuts.blanks {front : List Char} (white : front.dropWhile Text.isBlank = [])
    (cuts : Cuts characters tokens) : Cuts (front ++ characters) tokens := by
  have drop : (front ++ characters).dropWhile Text.isBlank = characters.dropWhile Text.isBlank := by
    rw [List.dropWhile_append, white]
    rfl
  cases cuts with
  | done blank => exact .done (drop.trans blank)
  | next scanned after => exact .next (by rwa [drop]) after

theorem Cuts.of_scan {c : Char} (visible : Text.isBlank c = false)
    (scanned : scan (c :: characters) = some (token, rest)) (after : Cuts rest tokens) :
    Cuts (c :: characters) (token :: tokens) := by
  refine .next ?_ after
  rwa [List.dropWhile_cons_of_neg (by simp [visible])]

theorem length_lt_of_scan
    (scanned : scan (characters.dropWhile Text.isBlank) = some (token, rest)) :
    rest.length < characters.length := by
  obtain ⟨front, full, whole⟩ := append_of_scan scanned
  have shorter := (List.dropWhile_suffix Text.isBlank (l := characters)).length_le
  rw [← whole, List.length_append] at shorter
  have := List.length_pos_iff.mpr full
  omega

theorem cuts_of_scanAll {rounds offset : Nat} {lexemes : List Lexeme}
    (found : scanAll rounds offset characters = some lexemes) :
    Cuts characters (lexemes.map Lexeme.token) := by
  induction rounds generalizing offset characters lexemes with
  | zero => simp [scanAll] at found
  | succ rounds induction =>
      simp only [scanAll] at found
      split at found
      · next empty =>
          cases found
          exact .done empty
      · split at found
        · simp at found
        · next token rest scanned =>
            obtain ⟨others, tail, rfl⟩ := Option.map_eq_some_iff.mp found
            exact .next scanned (induction tail)

theorem scanAll_of_cuts (cuts : Cuts characters tokens) (rounds offset : Nat)
    (enough : characters.length < rounds) :
    ∃ lexemes, scanAll rounds offset characters = some lexemes ∧
      lexemes.map Lexeme.token = tokens := by
  induction cuts generalizing rounds offset with
  | done blank =>
      obtain ⟨rounds, rfl⟩ :=
        Nat.exists_eq_succ_of_ne_zero (Nat.ne_of_gt (Nat.zero_lt_of_lt enough))
      exact ⟨[], by simp [scanAll, blank], rfl⟩
  | @next characters rest token tokens scanned after induction =>
      obtain ⟨rounds, rfl⟩ :=
        Nat.exists_eq_succ_of_ne_zero (Nat.ne_of_gt (Nat.zero_lt_of_lt enough))
      have shorter := length_lt_of_scan scanned
      have full : characters.dropWhile Text.isBlank ≠ [] := by
        intro empty
        rw [empty] at scanned
        simp [scan] at scanned
      simp only [scanAll, full, if_false, scanned]
      obtain ⟨lexemes, found, same⟩ := induction rounds _ (by omega)
      rw [found]
      exact ⟨_, rfl, by rw [List.map_cons, same]⟩

end

theorem cuts_of_lexemes {source : String} {cut : List Lexeme} (found : lexemes source = some cut) :
    Cuts source.toList (cut.map Lexeme.token) := by
  unfold lexemes at found
  split at found
  · next all =>
      split at found
      · cases found
        exact cuts_of_scanAll all
      · simp at found
  · exact cuts_of_scanAll found

theorem lexemes_of_cuts {source : String} {tokens : List Token} (some : tokens ≠ [])
    (cuts : Cuts source.toList tokens) :
    (lexemes source).map (List.map Lexeme.token) = .some tokens := by
  obtain ⟨cut, found, same⟩ :=
    scanAll_of_cuts cuts (source.length + 1) 0 (by rw [String.length_toList]; omega)
  unfold lexemes
  split
  · next none =>
      rw [none] at found
      cases found
      exact absurd same.symm some
  · rw [found, Option.map_some, same]

theorem spanDigits_append_right {characters rest : List Char}
    (ends : ∀ c tail, (spanDigits characters).2 ++ rest = c :: tail → c.isDigit = false) :
    spanDigits (characters ++ rest) =
      ((spanDigits characters).1, (spanDigits characters).2 ++ rest) := by
  induction characters with
  | nil =>
      cases rest with
      | nil => rfl
      | cons c tail => simp [spanDigits, ends c tail rfl]
  | cons c tail induction =>
      by_cases digit : c.isDigit = true
      · have inner := induction (by simpa [spanDigits, digit] using ends)
        simp only [spanDigits, Prod.mk.injEq] at inner ⊢
        simpa [digit] using inner
      · simp [spanDigits, digit]

theorem spanWhole_of_nonzero {c : Char} (nonzero : c ≠ '0') (rest : List Char) :
    spanWhole (c :: rest) = spanDigits (c :: rest) := by
  rw [spanWhole]
  intro inside same
  exact nonzero (List.cons.inj same).1

theorem spanWhole_append_right {c : Char} {characters rest : List Char}
    (ends : ∀ d tail, (spanWhole (c :: characters)).2 ++ rest = d :: tail → d.isDigit = false) :
    spanWhole (c :: characters ++ rest) =
      ((spanWhole (c :: characters)).1, (spanWhole (c :: characters)).2 ++ rest) := by
  by_cases zero : c = '0'
  · subst zero
    rfl
  · rw [spanWhole_of_nonzero zero] at ends ⊢
    rw [List.cons_append, spanWhole_of_nonzero zero, ← List.cons_append]
    exact spanDigits_append_right ends

theorem Apart.isDigit {characters rest : List Char} {c : Char} (apart : Apart characters)
    (same : characters = c :: rest) : c.isDigit = false := by
  have plain := (apart c rest same).1
  by_contra digit
  rw [continuesWord_of_isDigit (by simpa using digit)] at plain
  simp at plain

theorem spanDigits_of_apart {characters : List Char} (apart : Apart ('.' :: characters)) :
    (spanDigits characters).1 = [] := by
  cases characters with
  | nil => rfl
  | cons d tail => simp [spanDigits, (apart '.' _ rfl).2.2 rfl d tail rfl]

theorem scanNumber_plain {characters : List Char}
    (plain : ∀ inside, (spanWhole characters).2 = '.' :: inside → (spanDigits inside).1 = []) :
    scanNumber characters =
      (.number (Number.Decimal.ofParts (spanWhole characters).1 [] 0).toFloat,
        (spanWhole characters).2) := by
  simp only [scanNumber]
  split
  · next inside pointed =>
      rw [if_pos (plain inside pointed)]
  · rfl

theorem scanNumber_pointed {characters inside : List Char}
    (pointed : (spanWhole characters).2 = '.' :: inside) (some : (spanDigits inside).1 ≠ []) :
    scanNumber characters =
      (.number (Number.Decimal.ofParts (spanWhole characters).1 (spanDigits inside).1 0).toFloat,
        (spanDigits inside).2) := by
  simp only [scanNumber, pointed, some, if_false]

/-- A number ends where it ended before if what follows it stands apart. -/
theorem scanNumber_append_right {c : Char} {characters rest : List Char}
    (apart : Apart ((scanNumber (c :: characters)).2 ++ rest)) :
    scanNumber (c :: characters ++ rest) =
      ((scanNumber (c :: characters)).1, (scanNumber (c :: characters)).2 ++ rest) := by
  by_cases plain : ∀ inside, (spanWhole (c :: characters)).2 = '.' :: inside →
      (spanDigits inside).1 = []
  · rw [scanNumber_plain plain] at apart ⊢
    have longer := spanWhole_append_right fun d tail same => apart.isDigit same
    rw [scanNumber_plain, longer]
    intro inside pointed
    rw [longer] at pointed
    exact spanDigits_of_apart (pointed ▸ apart)
  · obtain ⟨inside, pointed, some⟩ : ∃ inside, (spanWhole (c :: characters)).2 = '.' :: inside ∧
        (spanDigits inside).1 ≠ [] := by
      simpa only [not_forall, exists_prop] using plain
    rw [scanNumber_pointed pointed some] at apart ⊢
    have longer : spanWhole (c :: characters ++ rest) = _ := spanWhole_append_right (by
      intro d tail same
      rw [pointed] at same
      cases same
      decide)
    have fraction := spanDigits_append_right fun d tail same => apart.isDigit same
    have further : (spanWhole (c :: characters ++ rest)).2 = '.' :: (inside ++ rest) := by
      rw [longer, pointed, List.cons_append]
    rw [scanNumber_pointed further (by rwa [fraction]), longer, fraction]

theorem scanNumber_cases (characters : List Char) :
    scanNumber characters =
        (.number (Number.Decimal.ofParts (spanWhole characters).1 [] 0).toFloat,
          (spanWhole characters).2) ∨
      ∃ inside, (spanWhole characters).2 = '.' :: inside ∧ (spanDigits inside).1 ≠ [] ∧
        scanNumber characters =
          (.number (Number.Decimal.ofParts (spanWhole characters).1
            (spanDigits inside).1 0).toFloat, (spanDigits inside).2) := by
  by_cases plain : ∀ inside, (spanWhole characters).2 = '.' :: inside → (spanDigits inside).1 = []
  · exact .inl (scanNumber_plain plain)
  · obtain ⟨inside, pointed, some⟩ : ∃ inside, (spanWhole characters).2 = '.' :: inside ∧
        (spanDigits inside).1 ≠ [] := by
      simpa only [not_forall, exists_prop] using plain
    exact .inr ⟨inside, pointed, some, scanNumber_pointed pointed some⟩

theorem scanNumber_fst (characters : List Char) :
    ∃ value, (scanNumber characters).1 = .number value := by
  rcases scanNumber_cases characters with scanned | ⟨inside, -, -, scanned⟩
  · exact ⟨_, congrArg Prod.fst scanned⟩
  · exact ⟨_, congrArg Prod.fst scanned⟩

theorem ofWord_cases (word : String) :
    (∃ constant, ofWord word = .keyword constant) ∨ ofWord word = .identifier word := by
  unfold ofWord
  split
  · exact .inl ⟨_, rfl⟩
  · split
    · exact .inl ⟨_, rfl⟩
    · split
      · exact .inl ⟨_, rfl⟩
      · exact .inr rfl

theorem scan_number {c : Char} {characters rest : List Char} {value : Float}
    (scanned : scan (c :: characters) = some (.number value, rest)) :
    c.isDigit = true ∧ scanNumber (c :: characters) = (.number value, rest) := by
  simp only [scan] at scanned
  split at scanned
  · next digit => exact ⟨digit, Option.some.inj scanned⟩
  · split at scanned
    · simp at scanned
    · split at scanned
      · have token := (Prod.mk.inj (Option.some.inj scanned)).1
        rcases ofWord_cases (String.ofList (c :: characters.takeWhile continuesWord)) with
          ⟨constant, same⟩ | same <;> simp only [same, reduceCtorEq] at token
      · simp at scanned

theorem head_of_number {characters : List Char} {value : Float}
    (number : Cuts characters [.number value]) : ∃ c tail, characters = c :: tail ∧ c ≠ '=' := by
  cases number with
  | next scanned =>
      cases characters with
      | nil => simp [scan] at scanned
      | cons c tail =>
          refine ⟨c, tail, rfl, ?_⟩
          rintro rfl
          rw [List.dropWhile_cons_of_neg (by decide)] at scanned
          exact absurd (scan_number scanned).1 (by decide)

theorem names_of_scan {characters rest : List Char} {name : String}
    (scanned : scan characters = some (.identifier name, rest)) : Names name.toList := by
  cases characters with
  | nil => simp [scan] at scanned
  | cons c tail =>
      simp only [scan] at scanned
      split at scanned
      · obtain ⟨value, same⟩ := scanNumber_fst (c :: tail)
        rw [Option.some.injEq, Prod.ext_iff] at scanned
        simp [same] at scanned
      · split at scanned
        · simp at scanned
        · split at scanned
          · next starts =>
              have token := (Prod.mk.inj (Option.some.inj scanned)).1
              rcases ofWord_cases (String.ofList (c :: tail.takeWhile continuesWord)) with
                ⟨constant, same⟩ | same
              · simp only [same, reduceCtorEq] at token
              · rw [same, Token.identifier.injEq] at token
                rw [← token, String.toList_ofList]
                refine ⟨c, _, rfl, starts, ?_, same⟩
                intro d member
                exact List.mem_takeWhile_imp member
          · simp at scanned

theorem Cuts.names {characters : List Char} {tokens : List Token} (cuts : Cuts characters tokens)
    {name : String} (member : .identifier name ∈ tokens) : Names name.toList := by
  induction cuts with
  | done => simp at member
  | next scanned _ induction =>
      rcases List.mem_cons.mp member with rfl | later
      · exact names_of_scan scanned
      · exact induction later

theorem scan_of_isDigit {c : Char} (digit : c.isDigit = true) (characters : List Char) :
    scan (c :: characters) = some (scanNumber (c :: characters)) := by
  rw [scan, if_pos digit]

theorem scan_of_startsWord {c : Char} (starts : startsWord c = true) (characters : List Char) :
    scan (c :: characters) =
      some (ofWord (String.ofList (c :: characters.takeWhile continuesWord)),
        characters.dropWhile continuesWord) := by
  have unquoted : ¬(c = '\'' ∨ c = '"') := by
    rintro (rfl | rfl) <;> revert starts <;> decide
  simp only [scan, isDigit_of_startsWord starts, Bool.false_eq_true, if_false, unquoted, starts,
    if_true]

/-- A symbol starts with a character that starts no other token. -/
theorem symbol_head (mark : Symbol) : ∃ c characters, mark.spelling.toList = c :: characters ∧
    Text.isBlank c = false ∧ c.isDigit = false ∧ ¬(c = '\'' ∨ c = '"') ∧ startsWord c = false := by
  cases mark <;> exact ⟨_, _, rfl, by decide⟩

theorem scan_of_symbol (mark : Symbol) (rest : List Char) :
    scan (mark.spelling.toList ++ rest) =
      (scanSymbol (mark.spelling.toList ++ rest)).map (fun cut => (.symbol cut.1, cut.2)) := by
  obtain ⟨c, characters, same, -, digit, quotes, word⟩ := symbol_head mark
  simp only [same, List.cons_append, scan, digit, quotes, word, Bool.false_eq_true, if_false]

section

variable {rest : List Char} {tokens : List Token}

theorem cuts_word {c : Char} {characters : List Char} (starts : startsWord c = true)
    (continues : ∀ d ∈ characters, continuesWord d = true) (apart : Apart rest)
    (cuts : Cuts rest tokens) :
    Cuts (c :: characters ++ rest) (ofWord (String.ofList (c :: characters)) :: tokens) := by
  have front : (characters ++ rest).takeWhile continuesWord = characters := by
    rw [List.takeWhile_append_of_pos continues]
    cases rest with
    | nil => simp
    | cons d tail => simp [(apart d tail rfl).1]
  have back : (characters ++ rest).dropWhile continuesWord = rest := by
    rw [List.dropWhile_append_of_pos continues]
    cases rest with
    | nil => rfl
    | cons d tail => simp [(apart d tail rfl).1]
  refine .of_scan (isBlank_of_continuesWord (continuesWord_of_startsWord starts)) ?_ cuts
  rw [List.append_eq, scan_of_startsWord starts, front, back]

theorem cuts_name {name : String} (names : Names name.toList) (apart : Apart rest)
    (cuts : Cuts rest tokens) : Cuts (name.toList ++ rest) (.identifier name :: tokens) := by
  obtain ⟨c, characters, same, starts, continues, word⟩ := names
  rw [String.ofList_toList] at word
  have all := cuts_word starts continues apart cuts
  rw [← same, String.ofList_toList, word] at all
  exact all

/-- A text that is cut into one number is that number in front of any text that
stands apart. -/
theorem cuts_number {characters : List Char} {value : Float}
    (number : Cuts characters [.number value]) (apart : Apart rest) (cuts : Cuts rest tokens) :
    Cuts (characters ++ rest) (.number value :: tokens) := by
  cases number with
  | @next _ after _ _ scanned ends =>
      cases ends with
      | done white =>
          have apart' : Apart (after ++ rest) := by
            cases after with
            | nil => exact apart
            | cons b others =>
                have blank : Text.isBlank b = true := by
                  by_contra visible
                  rw [List.dropWhile_cons_of_neg (by simpa using visible)] at white
                  simp at white
                refine apart_cons ?_ ?_ ?_ _
                · by_contra continues
                  rw [isBlank_of_continuesWord (by simpa using continues)] at blank
                  simp at blank
                · rintro rfl
                  revert blank
                  decide
                · rintro rfl
                  revert blank
                  decide
          refine .next ?_ (.blanks white cuts)
          cases visible : characters.dropWhile Text.isBlank with
          | nil =>
              rw [visible] at scanned
              simp [scan] at scanned
          | cons d inner =>
              rw [visible] at scanned
              obtain ⟨digit, number⟩ := scan_number scanned
              have longer : scanNumber (d :: inner ++ rest) = (.number value, after ++ rest) := by
                rw [scanNumber_append_right (by rwa [number]), number]
              rw [List.dropWhile_append, visible]
              simp only [List.isEmpty_cons, Bool.false_eq_true, if_false]
              exact (scan_of_isDigit digit _).trans (congrArg some longer)

theorem quotedCharacter_cases (c : Char) :
    (∃ letter, Literal.quotedCharacter c = ['\\', letter] ∧
      ∀ rest, Expression.unescape ('\\' :: letter :: rest) = c :: Expression.unescape rest) ∨
    (c ≠ '\'' ∧ c ≠ '\\' ∧ Literal.quotedCharacter c = [c]) := by
  unfold Literal.quotedCharacter
  split
  · next quote => exact .inl ⟨'\'', rfl, fun rest => by simp [Expression.unescape, quote]⟩
  · split
    · next slash => exact .inl ⟨'\\', rfl, fun rest => by simp [Expression.unescape, slash]⟩
    · split
      · next line => exact .inl ⟨'n', rfl, fun rest => by simp [Expression.unescape, line]⟩
      · next quote slash _ => exact .inr ⟨quote, slash, rfl⟩

theorem spanQuoted_written (text : List Char) (rest : List Char) :
    spanQuoted '\'' (text.flatMap Literal.quotedCharacter ++ '\'' :: rest) =
      some (text.flatMap Literal.quotedCharacter, rest) := by
  induction text with
  | nil => simp [spanQuoted]
  | cons c text induction =>
      rw [List.flatMap_cons, List.append_assoc]
      rcases quotedCharacter_cases c with ⟨letter, written, -⟩ | ⟨quote, slash, written⟩
      · rw [written, List.cons_append, List.singleton_append, spanQuoted, induction]
        rfl
      · rw [written, List.singleton_append, spanQuoted, if_neg quote, if_neg slash, induction]
        · rfl
        · exact fun _ _ same => absurd same slash

theorem unescape_written (text : List Char) :
    Expression.unescape (text.flatMap Literal.quotedCharacter) = text := by
  induction text with
  | nil => rfl
  | cons c text induction =>
      rw [List.flatMap_cons]
      rcases quotedCharacter_cases c with ⟨letter, written, stands⟩ | ⟨-, slash, written⟩
      · rw [written, List.cons_append, List.singleton_append, stands, induction]
      · rw [written, List.singleton_append, Expression.unescape, induction]
        · exact fun same => absurd same slash
        · exact fun _ _ same => absurd same slash

theorem scanSymbol_spelling (mark : Symbol) (apart : ∀ tail, rest ≠ '=' :: tail) :
    scanSymbol (mark.spelling.toList ++ rest) = some (mark, rest) := by
  cases rest with
  | nil => cases mark <;> rfl
  | cons c tail =>
      have other : c ≠ '=' := fun same => apart tail (same ▸ rfl)
      cases mark <;> simp [scanSymbol, Symbol.spelling, other]

theorem cuts_symbol (mark : Symbol) (apart : ∀ tail, rest ≠ '=' :: tail)
    (cuts : Cuts rest tokens) :
    Cuts (mark.spelling.toList ++ rest) (.symbol mark :: tokens) := by
  have scanned := scan_of_symbol mark rest
  rw [scanSymbol_spelling mark apart] at scanned
  obtain ⟨c, characters, same, visible, -⟩ := symbol_head mark
  rw [same] at scanned ⊢
  exact .of_scan visible scanned cuts

theorem cuts_quoted (text : List Char) (cuts : Cuts rest tokens) :
    Cuts ('\'' :: text.flatMap Literal.quotedCharacter ++ ['\''] ++ rest)
      (.text (String.ofList (text.flatMap Literal.quotedCharacter)) :: tokens) := by
  rw [List.append_assoc, List.singleton_append, List.cons_append]
  refine .of_scan (by decide) ?_ cuts
  have digit : '\''.isDigit = false := by decide
  simp [scan, digit, spanQuoted_written]

end

end ReactiveView.Token
