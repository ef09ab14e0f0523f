import ReactiveView.Expression.Token
import ReactiveView.Number.Reading

/-!
# From text to tokens

A source is cut into the longest tokens that stand one after the other, with
white space allowed around each. A source of white space alone has no cut, and
neither has one with anything that starts no token.
-/

namespace ReactiveView.Token

set_option autoImplicit false

open ReactiveView.Number (spanDigits)

def spanWhole : List Char → List Char × List Char
  | '0' :: rest => (['0'], rest)
  | characters => spanDigits characters

theorem spanWhole_append (characters : List Char) :
    (spanWhole characters).1 ++ (spanWhole characters).2 = characters := by
  fun_cases spanWhole characters with
  | case1 => rfl
  | case2 => exact Number.spanDigits_append characters

theorem spanWhole_of_digit {c : Char} (digit : c.isDigit = true) (rest : List Char) :
    ∃ digits, (spanWhole (c :: rest)).1 = c :: digits := by
  by_cases zero : c = '0'
  · exact ⟨[], by rw [zero, spanWhole]⟩
  · refine ⟨rest.takeWhile Char.isDigit, ?_⟩
    rw [spanWhole]
    · simp [spanDigits, digit]
    · intro inside same
      exact zero (List.cons.inj same).1

/-- A number: whole digits, and a point only with digits after it. -/
def scanNumber (characters : List Char) : Token × List Char :=
  let (whole, afterWhole) := spanWhole characters
  let plain := (Token.number (Number.Decimal.ofParts whole [] 0).toFloat, afterWhole)
  match afterWhole with
  | '.' :: rest =>
      let (fraction, afterFraction) := spanDigits rest
      if fraction = [] then plain
      else (Token.number (Number.Decimal.ofParts whole fraction 0).toFloat, afterFraction)
  | _ => plain

theorem append_of_scanNumber {c : Char} (digit : c.isDigit = true) (rest : List Char) :
    ∃ front, c :: front ++ (scanNumber (c :: rest)).2 = c :: rest := by
  obtain ⟨digits, taken⟩ := spanWhole_of_digit digit rest
  have whole := spanWhole_append (c :: rest)
  rw [taken] at whole
  simp only [scanNumber]
  split
  · next inside pointed =>
      split
      · exact ⟨digits, whole⟩
      · refine ⟨digits ++ '.' :: (spanDigits inside).1, ?_⟩
        rw [pointed, ← Number.spanDigits_append inside] at whole
        simpa using whole
  · exact ⟨digits, whole⟩

/-- The text up to the first closing quote that no backslash precedes, and what
follows that quote. -/
def spanQuoted (quote : Char) : List Char → Option (List Char × List Char)
  | [] => none
  | '\\' :: c :: rest => (spanQuoted quote rest).map (fun cut => ('\\' :: c :: cut.1, cut.2))
  | c :: rest =>
      if c = quote then some ([], rest)
      else if c = '\\' then none
      else (spanQuoted quote rest).map (fun cut => (c :: cut.1, cut.2))

theorem append_of_spanQuoted {quote : Char} {characters raw after : List Char}
    (found : spanQuoted quote characters = some (raw, after)) :
    raw ++ quote :: after = characters := by
  fun_induction spanQuoted quote characters generalizing raw with
  | case1 => simp at found
  | case2 c rest induction =>
      obtain ⟨cut, inner, same⟩ := Option.map_eq_some_iff.mp found
      simp only [Prod.mk.injEq] at same
      have tail : cut.1 ++ quote :: after = rest := induction (by rw [inner, ← same.2])
      rw [← same.1, List.cons_append, List.cons_append, tail]
  | case3 =>
      simp only [Option.some.injEq, Prod.mk.injEq] at found
      rw [← found.1, found.2, List.nil_append]
  | case4 => simp at found
  | case5 c rest _ _ _ induction =>
      obtain ⟨cut, inner, same⟩ := Option.map_eq_some_iff.mp found
      simp only [Prod.mk.injEq] at same
      have tail : cut.1 ++ quote :: after = rest := induction (by rw [inner, ← same.2])
      rw [← same.1, List.cons_append, tail]

def startsWord (c : Char) : Bool := c.isAlpha || c = '_' || c = '$'

def continuesWord (c : Char) : Bool := c.isAlphanum || c = '_' || c = '$'

/-- The token of a word; four words are kept for constants. -/
def ofWord (word : String) : Token :=
  if word = "true" then .keyword .true
  else if word = "false" then .keyword .false
  else if word = "null" ∨ word = "undefined" then .keyword .null
  else .identifier word

def scanSymbol : List Char → Option (Symbol × List Char)
  | '(' :: rest => some (.roundOpen, rest)
  | ')' :: rest => some (.roundClose, rest)
  | '[' :: rest => some (.squareOpen, rest)
  | ']' :: rest => some (.squareClose, rest)
  | '=' :: '=' :: '=' :: rest => some (.strictEqual, rest)
  | '!' :: '=' :: '=' :: rest => some (.strictNotEqual, rest)
  | '=' :: '=' :: rest => some (.equal, rest)
  | '!' :: '=' :: rest => some (.notEqual, rest)
  | '>' :: '=' :: rest => some (.greaterOrEqual, rest)
  | '>' :: rest => some (.greater, rest)
  | '<' :: '=' :: rest => some (.lessOrEqual, rest)
  | '<' :: rest => some (.less, rest)
  | '&' :: '&' :: rest => some (.and, rest)
  | '|' :: '|' :: rest => some (.or, rest)
  | '!' :: rest => some (.bang, rest)
  | '+' :: rest => some (.plus, rest)
  | '-' :: rest => some (.minus, rest)
  | '*' :: rest => some (.asterisk, rest)
  | '/' :: rest => some (.slash, rest)
  | '%' :: rest => some (.percent, rest)
  | ',' :: rest => some (.comma, rest)
  | '.' :: rest => some (.dot, rest)
  | '?' :: rest => some (.question, rest)
  | ':' :: rest => some (.colon, rest)
  | _ => none

theorem append_of_scanSymbol {characters rest : List Char} {mark : Symbol}
    (found : scanSymbol characters = some (mark, rest)) :
    mark.spelling.toList ++ rest = characters := by
  unfold scanSymbol at found
  split at found <;> cases found <;> rfl

def scan : List Char → Option (Token × List Char)
  | [] => none
  | c :: rest =>
      if c.isDigit then some (scanNumber (c :: rest))
      else if c = '\'' ∨ c = '"' then
        (spanQuoted c rest).map (fun cut => (.text (String.ofList cut.1), cut.2))
      else if startsWord c then
        some (ofWord (String.ofList (c :: rest.takeWhile continuesWord)),
          rest.dropWhile continuesWord)
      else (scanSymbol (c :: rest)).map (fun cut => (.symbol cut.1, cut.2))

theorem append_of_scan {characters rest : List Char} {token : Token}
    (found : scan characters = some (token, rest)) :
    ∃ front, front ≠ [] ∧ front ++ rest = characters := by
  cases characters with
  | nil => simp [scan] at found
  | cons c tail =>
      simp only [scan] at found
      split at found
      · next digit =>
          obtain ⟨front, whole⟩ := append_of_scanNumber digit tail
          have same : (scanNumber (c :: tail)).2 = rest := by
            rw [Option.some.inj found]
          exact ⟨c :: front, by simp, same ▸ whole⟩
      · split at found
        · obtain ⟨cut, inner, same⟩ := Option.map_eq_some_iff.mp found
          have whole := append_of_spanQuoted inner
          rw [(Prod.mk.inj same).2] at whole
          exact ⟨c :: cut.1 ++ [c], by simp, by simp [whole]⟩
        · split at found
          · have same := (Prod.mk.inj (Option.some.inj found)).2
            exact ⟨c :: tail.takeWhile continuesWord, by simp, by
              rw [← same, List.cons_append, List.takeWhile_append_dropWhile]⟩
          · obtain ⟨cut, inner, same⟩ := Option.map_eq_some_iff.mp found
            have whole := append_of_scanSymbol inner
            rw [(Prod.mk.inj same).2] at whole
            refine ⟨cut.1.spelling.toList, ?_, whole⟩
            cases cut.1 <;> simp [Symbol.spelling]

def byteLength (characters : List Char) : Nat :=
  characters.foldr (fun c length => c.utf8Size + length) 0

/-- Cuts a text that starts at byte `offset` of the source. Each round takes at
least one character, so the number of characters bounds the rounds. -/
def scanAll : Nat → Nat → List Char → Option (List Lexeme)
  | 0, _, _ => none
  | rounds + 1, offset, characters =>
      let start := offset + byteLength (characters.takeWhile Text.isBlank)
      let visible := characters.dropWhile Text.isBlank
      if visible = [] then some []
      else
        match scan visible with
        | none => none
        | some (token, rest) =>
            let stop := start + (byteLength visible - byteLength rest)
            (scanAll rounds stop rest).map (⟨token, start, stop⟩ :: ·)

/-- The tokens of a source with their places, or nothing if it has no cut. -/
def lexemes (source : String) : Option (List Lexeme) :=
  match scanAll (source.length + 1) 0 source.toList with
  | some [] => if source = "" then some [] else none
  | cut => cut

end ReactiveView.Token
