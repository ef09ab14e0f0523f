import ReactiveView.Proofs.Lexing

/-!
# The tokens tile the source

The cut of a source is compared with a lexical grammar that tells, without a scanner, how
tokens are spelled. Each token of a cut stands on characters that spell it and that no
longer text from the same place could replace, and what is left between the tokens is white
space.
-/

namespace ReactiveView.Token

set_option autoImplicit false

open ReactiveView.Number (spanDigits)

/-- The digits of a whole number, which do not start with a zero unless it stands alone. -/
inductive WholeDigits : List Char → Prop where
  | zero : WholeDigits ['0']
  | digits {c : Char} {rest : List Char} (digit : c.isDigit = true) (nonzero : c ≠ '0')
      (digits : ∀ d ∈ rest, d.isDigit = true) : WholeDigits (c :: rest)

/-- What may stand between quotes: characters after a backslash, and all others but the
quote and the backslash. -/
inductive Unclosed (quote : Char) : List Char → Prop where
  | nil : Unclosed quote []
  | escaped (c : Char) {rest : List Char} (unclosed : Unclosed quote rest) :
      Unclosed quote ('\\' :: c :: rest)
  | plain {c : Char} {rest : List Char} (other : c ≠ quote) (plain : c ≠ '\\')
      (unclosed : Unclosed quote rest) : Unclosed quote (c :: rest)

/-- The characters are a spelling of the token. -/
inductive Spelling : List Char → Token → Prop where
  | whole {digits : List Char} (whole : WholeDigits digits) :
      Spelling digits (.number (Number.Decimal.ofParts digits [] 0).toFloat)
  | pointed {digits fraction : List Char} (whole : WholeDigits digits) (some : fraction ≠ [])
      (all : ∀ c ∈ fraction, c.isDigit = true) :
      Spelling (digits ++ '.' :: fraction)
        (.number (Number.Decimal.ofParts digits fraction 0).toFloat)
  | quoted {quote : Char} {raw : List Char} (mark : quote = '\'' ∨ quote = '"')
      (unclosed : Unclosed quote raw) :
      Spelling (quote :: raw ++ [quote]) (.text (String.ofList raw))
  | word {c : Char} {rest : List Char} (starts : startsWord c = true)
      (continues : ∀ d ∈ rest, continuesWord d = true) :
      Spelling (c :: rest) (ofWord (String.ofList (c :: rest)))
  | symbol (mark : Symbol) : Spelling mark.spelling.toList (.symbol mark)

variable {c quote : Char} {characters front rest tail digits fraction raw after : List Char}
  {token other : Token} {mark : Symbol}

theorem wholeDigits_spanWhole (digit : c.isDigit = true) (rest : List Char) :
    WholeDigits (spanWhole (c :: rest)).1 := by
  by_cases zero : c = '0'
  · subst zero
    exact .zero
  · rw [spanWhole_of_nonzero zero, spanDigits, List.takeWhile_cons_of_pos digit]
    exact .digits digit zero fun d member => List.mem_takeWhile_imp member

theorem unclosed_of_spanQuoted (found : spanQuoted quote characters = some (raw, after)) :
    Unclosed quote raw := by
  fun_induction spanQuoted quote characters generalizing raw with
  | case1 => cases found
  | case2 c rest induction =>
      obtain ⟨cut, inner, same⟩ := Option.map_eq_some_iff.mp found
      obtain ⟨rfl, rfl⟩ := Prod.mk.inj same
      exact .escaped c (induction inner)
  | case3 =>
      obtain ⟨rfl, rfl⟩ := Prod.mk.inj (Option.some.inj found)
      exact .nil
  | case4 => cases found
  | case5 c rest _ other plain induction =>
      obtain ⟨cut, inner, same⟩ := Option.map_eq_some_iff.mp found
      obtain ⟨rfl, rfl⟩ := Prod.mk.inj same
      exact .plain other plain (induction inner)

theorem spelling_of_scanNumber (digit : c.isDigit = true) (rest : List Char) :
    ∃ front, Spelling front (scanNumber (c :: rest)).1 ∧
      front ++ (scanNumber (c :: rest)).2 = c :: rest := by
  have whole := wholeDigits_spanWhole digit rest
  have split := spanWhole_append (c :: rest)
  rcases scanNumber_cases (c :: rest) with scanned | ⟨inside, pointed, some, scanned⟩
  · rw [scanned]
    exact ⟨_, .whole whole, split⟩
  · rw [scanned]
    refine ⟨_, .pointed whole some fun d member => List.mem_takeWhile_imp member, ?_⟩
    rw [List.append_assoc, List.cons_append, Number.spanDigits_append, ← pointed, split]

theorem spelling_of_scan (scanned : scan characters = some (token, rest)) :
    ∃ front, Spelling front token ∧ front ++ rest = characters := by
  cases characters with
  | nil => cases scanned
  | cons c tail =>
      simp only [scan] at scanned
      split at scanned
      · next digit =>
          have taken := spelling_of_scanNumber digit tail
          rw [Option.some.inj scanned] at taken
          exact taken
      · split at scanned
        · next mark =>
            obtain ⟨cut, inner, same⟩ := Option.map_eq_some_iff.mp scanned
            obtain ⟨rfl, rfl⟩ := Prod.mk.inj same
            refine ⟨_, .quoted mark (unclosed_of_spanQuoted inner), ?_⟩
            rw [List.append_assoc, List.cons_append, List.singleton_append,
              append_of_spanQuoted inner]
        · split at scanned
          · next starts =>
              obtain ⟨rfl, rfl⟩ := Prod.mk.inj (Option.some.inj scanned)
              refine ⟨_, .word starts fun d member => List.mem_takeWhile_imp member, ?_⟩
              rw [List.cons_append, List.takeWhile_append_dropWhile]
          · obtain ⟨cut, inner, same⟩ := Option.map_eq_some_iff.mp scanned
            obtain ⟨rfl, rfl⟩ := Prod.mk.inj same
            exact ⟨_, .symbol cut.1, append_of_scanSymbol inner⟩

theorem WholeDigits.head (whole : WholeDigits digits) :
    ∃ c rest, digits = c :: rest ∧ c.isDigit = true := by
  cases whole with
  | zero => exact ⟨'0', [], rfl, by decide⟩
  | digits digit => exact ⟨_, _, rfl, digit⟩

theorem spanDigits_of_digits (all : ∀ c ∈ digits, c.isDigit = true) (tail : List Char) :
    spanDigits (digits ++ tail) = (digits ++ (spanDigits tail).1, (spanDigits tail).2) := by
  rw [spanDigits, List.takeWhile_append_of_pos all, List.dropWhile_append_of_pos all]
  rfl

theorem spanWhole_of_wholeDigits (whole : WholeDigits digits) (tail : List Char) :
    ∃ more rest, spanWhole (digits ++ tail) = (digits ++ more, rest) ∧ more ++ rest = tail ∧
      ∀ c ∈ more, c.isDigit = true := by
  cases whole with
  | zero => exact ⟨[], tail, rfl, rfl, by simp⟩
  | @digits c rest digit nonzero digits =>
      refine ⟨(spanDigits tail).1, (spanDigits tail).2, ?_, Number.spanDigits_append tail,
        fun d member => List.mem_takeWhile_imp member⟩
      rw [List.cons_append, spanWhole_of_nonzero nonzero, ← List.cons_append]
      exact spanDigits_of_digits (List.forall_mem_cons.mpr ⟨digit, digits⟩) tail

/-- Before a character that is no digit, whole digits are taken as they are. -/
theorem spanWhole_exact (whole : WholeDigits digits) (tail : List Char)
    (ends : ∀ c rest, tail = c :: rest → c.isDigit = false) :
    spanWhole (digits ++ tail) = (digits, tail) := by
  obtain ⟨more, rest, spanned, split, all⟩ := spanWhole_of_wholeDigits whole tail
  cases more with
  | nil => rw [spanned, List.append_nil, ← split, List.nil_append]
  | cons c more =>
      have digit := all c List.mem_cons_self
      rw [ends c (more ++ rest) split.symm] at digit
      cases digit

theorem length_scanNumber_le (characters : List Char) :
    (scanNumber characters).2.length ≤ (spanWhole characters).2.length := by
  rcases scanNumber_cases characters with scanned | ⟨inside, pointed, -, scanned⟩
  · rw [scanned]
  · rw [scanned, pointed]
    exact (List.length_dropWhile_le _ inside).trans (Nat.le_succ _)

theorem length_scanNumber_of_whole (whole : WholeDigits digits) (tail : List Char) :
    (scanNumber (digits ++ tail)).2.length ≤ tail.length := by
  obtain ⟨more, rest, spanned, split, -⟩ := spanWhole_of_wholeDigits whole tail
  calc (scanNumber (digits ++ tail)).2.length
    _ ≤ (spanWhole (digits ++ tail)).2.length := length_scanNumber_le _
    _ = rest.length := by rw [spanned]
    _ ≤ tail.length := by rw [← split, List.length_append]; exact Nat.le_add_left _ _

theorem scanNumber_of_whole (whole : WholeDigits digits) :
    scanNumber digits = (.number (Number.Decimal.ofParts digits [] 0).toFloat, []) := by
  have spanned := spanWhole_exact whole [] nofun
  rw [List.append_nil] at spanned
  rw [scanNumber_plain (by rw [spanned]; exact nofun), spanned]

theorem scanNumber_of_pointed (whole : WholeDigits digits) (some : fraction ≠ [])
    (all : ∀ c ∈ fraction, c.isDigit = true) (tail : List Char) :
    scanNumber (digits ++ '.' :: fraction ++ tail) =
      (.number (Number.Decimal.ofParts digits (fraction ++ (spanDigits tail).1) 0).toFloat,
        (spanDigits tail).2) := by
  have spanned := spanWhole_exact whole ('.' :: (fraction ++ tail)) (by
    intro c rest same
    cases same
    decide)
  have further := spanDigits_of_digits all tail
  have nonempty : (spanDigits (fraction ++ tail)).1 ≠ [] := by
    rw [further]
    exact List.append_ne_nil_of_left_ne_nil some _
  rw [List.append_assoc, List.cons_append, scanNumber_pointed (by rw [spanned]) nonempty,
    spanned, further]

theorem spanQuoted_of_unclosed (quote : Char) (other : quote ≠ '\\')
    (unclosed : Unclosed quote raw) (tail : List Char) :
    spanQuoted quote (raw ++ quote :: tail) = some (raw, tail) := by
  induction unclosed with
  | nil =>
      rw [List.nil_append, spanQuoted, if_pos rfl]
      exact fun _ _ same => absurd same other
  | escaped c _ induction => simp only [List.cons_append, spanQuoted, induction, Option.map_some]
  | plain differs plain _ induction =>
      rw [List.cons_append, spanQuoted, if_neg differs, if_neg plain, induction]
      · rfl
      · exact fun _ _ same => absurd same plain

theorem unassigned_or_assigned (tail : List Char) :
    (∀ after, tail ≠ '=' :: after) ∨ ∃ after, tail = '=' :: after := by
  by_cases assigned : ∃ after, tail = '=' :: after
  · exact .inr assigned
  · exact .inl (not_exists.mp assigned)

theorem scanSymbol_longest (mark : Symbol) (tail : List Char) :
    ∃ taken rest, scanSymbol (mark.spelling.toList ++ tail) = some (taken, rest) ∧
      rest.length ≤ tail.length ∧ (tail = [] → taken = mark) := by
  rcases unassigned_or_assigned tail with apart | ⟨after, rfl⟩
  · exact ⟨mark, tail, scanSymbol_spelling mark apart, le_rfl, fun _ => rfl⟩
  · -- some symbols go on with an equals sign, and an exclamation mark with two of them
    cases mark with
    | greater => exact ⟨.greaterOrEqual, after, rfl, Nat.le_succ _, nofun⟩
    | less => exact ⟨.lessOrEqual, after, rfl, Nat.le_succ _, nofun⟩
    | equal => exact ⟨.strictEqual, after, rfl, Nat.le_succ _, nofun⟩
    | notEqual => exact ⟨.strictNotEqual, after, rfl, Nat.le_succ _, nofun⟩
    | bang =>
        rcases unassigned_or_assigned after with apart | ⟨further, rfl⟩
        · exact ⟨.notEqual, after, scanSymbol_spelling .notEqual apart, Nat.le_succ _, nofun⟩
        · exact ⟨.strictNotEqual, further, rfl, by simp only [List.length_cons]; omega, nofun⟩
    | _ => exact ⟨_, '=' :: after, rfl, le_rfl, nofun⟩

/-- Where a token is spelled in front, a scan takes at least its characters, and just this
token if there are no others. -/
theorem scan_of_spelling (spelling : Spelling front token) (tail : List Char) :
    ∃ other rest, scan (front ++ tail) = some (other, rest) ∧ rest.length ≤ tail.length ∧
      (tail = [] → other = token) := by
  cases spelling with
  | whole whole =>
      have shorter := length_scanNumber_of_whole whole tail
      have alone : tail = [] → (scanNumber (front ++ tail)).1 =
          .number (Number.Decimal.ofParts front [] 0).toFloat := by
        rintro rfl
        rw [List.append_nil, scanNumber_of_whole whole]
      obtain ⟨c, digits, rfl, digit⟩ := whole.head
      exact ⟨_, _, scan_of_isDigit digit _, shorter, alone⟩
  | @pointed digits fraction whole some all =>
      have taken := scanNumber_of_pointed whole some all tail
      obtain ⟨c, rest, rfl, digit⟩ := whole.head
      have scanned := (scan_of_isDigit digit _).trans (congrArg Option.some taken)
      refine ⟨_, _, scanned, List.length_dropWhile_le Char.isDigit tail, ?_⟩
      rintro rfl
      rw [spanDigits, List.takeWhile_nil, List.append_nil]
  | @quoted quote raw mark unclosed =>
      have other : quote ≠ '\\' := by rcases mark with rfl | rfl <;> decide
      have digit : quote.isDigit = false := by rcases mark with rfl | rfl <;> decide
      refine ⟨.text (String.ofList raw), tail, ?_, le_rfl, fun _ => rfl⟩
      rw [List.append_assoc, List.cons_append, List.singleton_append, scan,
        if_neg (by simp [digit]), if_pos mark, spanQuoted_of_unclosed quote other unclosed]
      rfl
  | @word c rest starts continues =>
      refine ⟨_, _, scan_of_startsWord starts _, ?_, ?_⟩
      · rw [List.append_eq, List.dropWhile_append_of_pos continues]
        exact List.length_dropWhile_le _ tail
      · rintro rfl
        rw [List.append_eq, List.append_nil, List.takeWhile_eq_self_iff.mpr continues]
  | symbol mark =>
      obtain ⟨taken, rest, scanned, shorter, alone⟩ := scanSymbol_longest mark tail
      refine ⟨.symbol taken, rest, ?_, shorter, fun none => congrArg Token.symbol (alone none)⟩
      rw [scan_of_symbol, scanned]
      rfl

theorem scan_alone (spelling : Spelling front token) : scan front = some (token, []) := by
  obtain ⟨other, rest, scanned, shorter, same⟩ := scan_of_spelling spelling []
  rw [List.append_nil] at scanned
  rw [scanned, same rfl, List.eq_nil_of_length_eq_zero (Nat.le_zero.mp shorter)]

theorem scan_longest {longer : List Char} (scanned : scan (front ++ rest) = some (token, rest))
    (spelling : Spelling longer other) (split : longer ++ tail = front ++ rest) :
    longer <+: front := by
  obtain ⟨taken, left, scanned', shorter, -⟩ := scan_of_spelling spelling tail
  rw [split, scanned] at scanned'
  obtain ⟨-, rfl⟩ := Prod.mk.inj (Option.some.inj scanned')
  have lengths := congrArg List.length split
  simp only [List.length_append] at lengths
  exact List.prefix_of_prefix_length_le ⟨tail, split⟩ ⟨rest, rfl⟩ (by omega)

theorem Spelling.visible (spelling : Spelling (c :: rest) token) : Text.isBlank c = false := by
  generalize characters : c :: rest = spelled at spelling
  cases spelling with
  | whole whole =>
      obtain ⟨d, digits, same, digit⟩ := whole.head
      rw [same] at characters
      cases characters
      exact isBlank_of_continuesWord (continuesWord_of_isDigit digit)
  | pointed whole =>
      obtain ⟨d, digits, rfl, digit⟩ := whole.head
      cases characters
      exact isBlank_of_continuesWord (continuesWord_of_isDigit digit)
  | quoted mark =>
      cases characters
      rcases mark with rfl | rfl <;> decide
  | word starts =>
      cases characters
      exact isBlank_of_continuesWord (continuesWord_of_startsWord starts)
  | symbol mark =>
      obtain ⟨d, others, same, visible, -⟩ := symbol_head mark
      rw [same] at characters
      cases characters
      exact visible

theorem Spelling.nonempty (spelling : Spelling front token) : front ≠ [] := by
  rintro rfl
  have scanned := scan_alone spelling
  cases scanned

theorem byteLength_append (left right : List Char) :
    byteLength (left ++ right) = byteLength left + byteLength right := by
  induction left with
  | nil => exact (Nat.zero_add _).symm
  | cons c left induction =>
      change c.utf8Size + byteLength (left ++ right) = c.utf8Size + byteLength left + _
      rw [induction, Nat.add_assoc]

theorem byteLength_pos (some : front ≠ []) : 0 < byteLength front := by
  cases front with
  | nil => exact absurd rfl some
  | cons c rest => exact Nat.lt_add_right _ c.utf8Size_pos

theorem utf8ByteSize_ofList (characters : List Char) :
    (String.ofList characters).utf8ByteSize = byteLength characters := by
  induction characters with
  | nil => rfl
  | cons c rest induction =>
      have split : String.ofList (c :: rest) = String.singleton c ++ String.ofList rest := by
        apply String.toList_inj.mp
        rw [String.toList_append, String.toList_singleton, String.toList_ofList,
          String.toList_ofList, List.singleton_append]
      rw [split, String.utf8ByteSize_append, String.utf8ByteSize_singleton, induction]
      rfl

theorem utf8ByteSize_eq_byteLength (text : String) :
    text.utf8ByteSize = byteLength text.toList := by
  rw [← utf8ByteSize_ofList, String.ofList_toList]

/-- The characters from a place of the source on are white space and tokens in turn, which
the lexemes tell with their places. -/
inductive Tiled : Nat → List Char → List Lexeme → Prop where
  | done {offset : Nat} {gap : List Char} (blank : ∀ c ∈ gap, Text.isBlank c = true) :
      Tiled offset gap []
  | next {offset : Nat} {gap part rest : List Char} {token : Token} {cut : List Lexeme}
      (blank : ∀ c ∈ gap, Text.isBlank c = true)
      (scanned : scan (part ++ rest) = some (token, rest)) (spelling : Spelling part token)
      (later : Tiled (offset + byteLength gap + byteLength part) rest cut) :
      Tiled offset (gap ++ (part ++ rest)) (⟨token, offset + byteLength gap,
        offset + byteLength gap + byteLength part⟩ :: cut)

theorem tiled_of_scanAll {rounds offset : Nat} {cut : List Lexeme}
    (found : scanAll rounds offset characters = some cut) : Tiled offset characters cut := by
  induction rounds generalizing offset characters cut with
  | zero => cases found
  | succ rounds induction =>
      have split := List.takeWhile_append_dropWhile (p := Text.isBlank) (l := characters)
      have blank : ∀ c ∈ characters.takeWhile Text.isBlank, Text.isBlank c = true :=
        fun c member => List.mem_takeWhile_imp member
      simp only [scanAll] at found
      split at found
      · next empty =>
          cases found
          rw [empty, List.append_nil] at split
          exact .done (split ▸ blank)
      · split at found
        · cases found
        · next token rest scanned =>
            obtain ⟨others, tail, rfl⟩ := Option.map_eq_some_iff.mp found
            obtain ⟨part, spelling, visible⟩ := spelling_of_scan scanned
            rw [← visible] at split scanned tail
            have size : byteLength (part ++ rest) - byteLength rest = byteLength part := by
              rw [byteLength_append, Nat.add_sub_cancel]
            rw [size] at tail
            rw [← visible, size]
            conv => arg 2; rw [← split]
            exact .next blank scanned spelling (induction tail)

namespace Tiled

variable {offset : Nat} {cut : List Lexeme}

theorem placed (tiled : Tiled offset characters cut) {lexeme : Lexeme} (member : lexeme ∈ cut) :
    ∃ before part after, characters = before ++ (part ++ after) ∧
      lexeme.start = offset + byteLength before ∧
      lexeme.stop = offset + byteLength before + byteLength part ∧
      scan (part ++ after) = some (lexeme.token, after) ∧ Spelling part lexeme.token := by
  induction tiled with
  | done => cases member
  | @next offset gap part rest token cut blank scanned spelling later induction =>
      rcases List.mem_cons.mp member with rfl | behind
      · exact ⟨gap, part, rest, rfl, rfl, rfl, scanned, spelling⟩
      · obtain ⟨before, part', after, rfl, start, stop, scanned', spelling'⟩ := induction behind
        refine ⟨gap ++ (part ++ before), part', after, by simp, ?_, ?_, scanned', spelling'⟩
        · rw [start, byteLength_append, byteLength_append]
          omega
        · rw [stop, byteLength_append, byteLength_append]
          omega

theorem ordered (tiled : Tiled offset characters cut) :
    cut.Pairwise (fun first second => first.stop ≤ second.start) := by
  induction tiled with
  | done => exact .nil
  | next blank scanned spelling later induction =>
      refine .cons ?_ induction
      intro lexeme member
      obtain ⟨before, part, after, -, start, -⟩ := later.placed member
      rw [start]
      exact Nat.le_add_right _ _

theorem within_or_behind {left right before after : List Char}
    (split : left ++ right = before ++ c :: after) :
    (∃ further, left = before ++ c :: further) ∨
      ∃ between, before = left ++ between ∧ right = between ++ c :: after := by
  rcases List.append_eq_append_iff.mp split with ⟨between, same, behind⟩ | ⟨rest, same, behind⟩
  · exact .inr ⟨between, same, behind⟩
  · cases rest with
    | nil => exact .inr ⟨[], by rw [same, List.append_nil, List.append_nil], behind.symm⟩
    | cons d further =>
        cases behind
        exact .inl ⟨further, same⟩

/-- A character that no lexeme covers is white space. -/
theorem uncovered (tiled : Tiled offset characters cut) {before after : List Char} {c : Char}
    (split : characters = before ++ c :: after)
    (apart : ∀ lexeme ∈ cut, ¬(lexeme.start ≤ offset + byteLength before ∧
      offset + byteLength before < lexeme.stop)) : Text.isBlank c = true := by
  induction tiled generalizing before after with
  | done blank =>
      subst split
      exact blank c (List.mem_append_right _ List.mem_cons_self)
  | @next offset gap part rest token cut blank scanned spelling later induction =>
      obtain ⟨first, others⟩ := List.forall_mem_cons.mp apart
      rcases within_or_behind split with ⟨further, rfl⟩ | ⟨between, rfl, behind⟩
      · exact blank c (List.mem_append_right _ List.mem_cons_self)
      · simp only [byteLength_append] at first others
        rcases within_or_behind behind with ⟨further, rfl⟩ | ⟨between, rfl, last⟩
        · have wide : 0 < byteLength (c :: further) := byteLength_pos (List.cons_ne_nil _ _)
          rw [byteLength_append] at first
          exact absurd ⟨by omega, by omega⟩ first
        · refine induction last fun lexeme member => ?_
          have outside := others lexeme member
          rwa [byteLength_append, ← Nat.add_assoc, ← Nat.add_assoc] at outside

end Tiled

theorem tiled_of_lexemes {source : String} {cut : List Lexeme}
    (found : lexemes source = some cut) : Tiled 0 source.toList cut := by
  unfold lexemes at found
  split at found
  · next all =>
      split at found
      · cases found
        exact tiled_of_scanAll all
      · cases found
  · exact tiled_of_scanAll found

theorem scanAll_of_spelling (spelling : Spelling front token) (rounds : Nat) :
    scanAll (rounds + 2) 0 front = some [⟨token, 0, byteLength front⟩] := by
  cases front with
  | nil => exact absurd rfl spelling.nonempty
  | cons c rest =>
      have visible : ¬Text.isBlank c = true := by simp [spelling.visible]
      have empty : byteLength [] = 0 := rfl
      simp only [scanAll, List.takeWhile_cons_of_neg visible, List.dropWhile_cons_of_neg visible,
        scan_alone spelling, List.dropWhile_nil, reduceCtorEq, if_false, if_true, Option.map_some,
        empty, Nat.zero_add, Nat.sub_zero]

theorem spelling_iff {part : String} :
    Spelling part.toList token ↔ lexemes part = some [⟨token, 0, part.utf8ByteSize⟩] := by
  constructor
  · intro spelling
    have long : part.length ≠ 0 := by
      rw [← String.length_toList, List.length_eq_zero_iff.ne]
      exact spelling.nonempty
    obtain ⟨rounds, length⟩ := Nat.exists_eq_succ_of_ne_zero long
    unfold lexemes
    rw [length, scanAll_of_spelling spelling, utf8ByteSize_eq_byteLength]
  · intro found
    obtain ⟨before, front, after, split, start, stop, -, spelling⟩ :=
      (tiled_of_lexemes found).placed List.mem_cons_self
    have size := congrArg byteLength split
    simp only [byteLength_append, ← utf8ByteSize_eq_byteLength] at start stop size
    have none : before = [] := by
      by_contra some
      have := byteLength_pos some
      omega
    have last : after = [] := by
      by_contra some
      have := byteLength_pos some
      omega
    rwa [split, none, last, List.nil_append, List.append_nil]

/-- The token stands on a part of a source, before the rest of it. -/
structure Stands (part after : String) (token : Token) : Prop where
  spelling : Spelling part.toList token
  /-- The part alone is cut into this one token. -/
  alone : lexemes part = some [⟨token, 0, part.utf8ByteSize⟩]
  /-- No text from the same place that goes further is a single token. -/
  longest : ∀ longer rest : String, longer ++ rest = part ++ after →
    part.utf8ByteSize < longer.utf8ByteSize → ∀ other, ¬Spelling longer.toList other
  /-- Three equals signs are not taken apart. -/
  equals : ∀ rest : String, part ++ after = "===" ++ rest →
    part = "===" ∧ token = .symbol .strictEqual
  /-- A word ends where no character goes on with it. -/
  word : ∀ c rest d further, part.toList = c :: rest → startsWord c = true →
    after.toList = d :: further → continuesWord d = false
  /-- A quoted text ends at its first quote that is not escaped. -/
  quoted : ∀ raw : String, token = .text raw → ∃ quote, (quote = '\'' ∨ quote = '"') ∧
    part.toList = quote :: raw.toList ++ [quote] ∧ Unclosed quote raw.toList

/-- The tokens of a cut and the white space around them make up the source. -/
structure Tiling (source : String) (cut : List Lexeme) : Prop where
  /-- Each lexeme covers a part of the source, from one boundary of characters to another. -/
  placed : ∀ lexeme ∈ cut, ∃ before part after : String, source = before ++ (part ++ after) ∧
    lexeme.start = before.utf8ByteSize ∧ lexeme.stop = (before ++ part).utf8ByteSize ∧
    Stands part after lexeme.token
  nonempty : ∀ lexeme ∈ cut, lexeme.start < lexeme.stop
  ordered : cut.Pairwise (fun first second => first.stop ≤ second.start)
  /-- A character that is in no token is white space. -/
  blank : ∀ (before : String) (c : Char) (after : String),
    source = before ++ (String.singleton c ++ after) →
    (∀ lexeme ∈ cut, ¬(lexeme.start ≤ before.utf8ByteSize ∧
      before.utf8ByteSize < lexeme.stop)) → Text.isBlank c = true

theorem stands_of_scan {part after : String}
    (scanned : scan (part.toList ++ after.toList) = some (token, after.toList))
    (spelling : Spelling part.toList token) : Stands part after token where
  spelling := spelling
  alone := spelling_iff.mp spelling
  longest := by
    intro longer rest split further other spelled
    have within := scan_longest scanned spelled (by
      rw [← String.toList_append, split, String.toList_append])
    obtain ⟨tail, same⟩ := within
    rw [utf8ByteSize_eq_byteLength, utf8ByteSize_eq_byteLength, ← same, byteLength_append]
      at further
    omega
  equals := by
    intro rest split
    have characters := congrArg String.toList split
    rw [String.toList_append, String.toList_append] at characters
    rw [characters] at scanned
    have taken : scan ("===".toList ++ rest.toList) =
        some (.symbol .strictEqual, rest.toList) := rfl
    obtain ⟨rfl, same⟩ := Prod.mk.inj (Option.some.inj (scanned.symm.trans taken))
    rw [same] at characters
    exact ⟨String.toList_inj.mp (List.append_cancel_right characters), rfl⟩
  word := by
    intro c rest d further first starts next
    rw [first, List.cons_append, scan_of_startsWord starts] at scanned
    have left := (Prod.mk.inj (Option.some.inj scanned)).2
    have ends := List.head?_dropWhile_not continuesWord (rest ++ after.toList)
    rw [left, next] at ends
    simpa using ends
  quoted := by
    rintro raw rfl
    generalize part.toList = characters at spelling
    generalize same : Token.text raw = token at spelling
    cases spelling with
    | quoted mark unclosed =>
        cases same
        exact ⟨_, mark, by rw [String.toList_ofList], by rwa [String.toList_ofList]⟩
    | @word c rest =>
        rcases ofWord_cases (String.ofList (c :: rest)) with ⟨constant, word⟩ | word
        · rw [word] at same
          cases same
        · rw [word] at same
          cases same
    | _ => cases same

/-- A source that is accepted is tiled with the longest tokens. -/
theorem lexemes_tile {source : String} {cut : List Lexeme} (found : lexemes source = some cut) :
    Tiling source cut where
  placed := by
    intro lexeme member
    obtain ⟨before, part, after, split, start, stop, scanned, spelling⟩ :=
      (tiled_of_lexemes found).placed member
    refine ⟨String.ofList before, String.ofList part, String.ofList after, ?_, ?_, ?_, ?_⟩
    · apply String.toList_inj.mp
      simp only [String.toList_append, String.toList_ofList, split]
    · rw [utf8ByteSize_ofList, start, Nat.zero_add]
    · rw [String.utf8ByteSize_append, utf8ByteSize_ofList, utf8ByteSize_ofList, stop, Nat.zero_add]
    · apply stands_of_scan
      · rwa [String.toList_ofList, String.toList_ofList]
      · rwa [String.toList_ofList]
  nonempty := by
    intro lexeme member
    obtain ⟨before, part, after, -, start, stop, -, spelling⟩ :=
      (tiled_of_lexemes found).placed member
    have wide := byteLength_pos spelling.nonempty
    omega
  ordered := (tiled_of_lexemes found).ordered
  blank := by
    intro before c after split apart
    have characters : source.toList = before.toList ++ c :: after.toList := by
      rw [split, String.toList_append, String.toList_append, String.toList_singleton,
        List.singleton_append]
    refine (tiled_of_lexemes found).uncovered characters fun lexeme member => ?_
    rw [Nat.zero_add, ← utf8ByteSize_eq_byteLength]
    exact apart lexeme member

theorem lexemes_tile_greeting :
    let cut : List Lexeme := [⟨.identifier "name", 3, 7⟩, ⟨.symbol .strictEqual, 7, 10⟩,
      ⟨.text "Zo\u00eb", 11, 17⟩]
    lexemes "\u2003name=== 'Zo\u00eb'" = some cut ∧ Tiling "\u2003name=== 'Zo\u00eb'" cut :=
  ⟨rfl, lexemes_tile rfl⟩

end ReactiveView.Token
