import ReactiveView.Expression.Parser
import ReactiveView.Expression.Printer
import ReactiveView.Warning

/-!
# Templates

A template is a text with expressions between double braces. The text is first
cut at the segments: each starts at the leftmost pair of opening braces that
can start one and ends at the first pair of closing braces after at least one
character, on the same line. A segment that does not parse stays text.
-/

namespace ReactiveView

set_option autoImplicit false

namespace Template

/-- One step of the cut: a character of the text, or a whole segment by what
stands between its braces. -/
inductive Piece where
  | character (c : Char)
  | segment (body : List Char)
  deriving DecidableEq

def Piece.source : Piece → List Char
  | character c => [c]
  | segment body => '\x7b' :: '\x7b' :: body ++ ['\x7d', '\x7d']

def isLineEnd (c : Char) : Bool := c = '\n' || c = '\r'

def spanLine : List Char → Option (List Char × List Char)
  | [] => none
  | '\x7d' :: '\x7d' :: rest => some ([], rest)
  | c :: rest =>
      if isLineEnd c then none else (spanLine rest).map (fun cut => (c :: cut.1, cut.2))

theorem append_of_spanLine {characters body after : List Char}
    (found : spanLine characters = some (body, after)) :
    body ++ '\x7d' :: '\x7d' :: after = characters := by
  fun_induction spanLine characters generalizing body with
  | case1 => simp at found
  | case2 rest =>
      simp only [Option.some.injEq, Prod.mk.injEq] at found
      simp [← found.1, found.2]
  | case3 => simp at found
  | case4 c rest _ _ induction =>
      obtain ⟨cut, inner, same⟩ := Option.map_eq_some_iff.mp found
      simp only [Prod.mk.injEq] at same
      have tail : cut.1 ++ '\x7d' :: '\x7d' :: after = rest := induction (by rw [inner, ← same.2])
      rw [← same.1, List.cons_append, tail]

/-- The body of a segment, its opening braces already taken: at least one
character, even where that is a closing brace. -/
def spanBody : List Char → Option (List Char × List Char)
  | [] => none
  | first :: rest =>
      if isLineEnd first then none
      else (spanLine rest).map (fun cut => (first :: cut.1, cut.2))

theorem append_of_spanBody {characters body after : List Char}
    (found : spanBody characters = some (body, after)) :
    body ++ '\x7d' :: '\x7d' :: after = characters := by
  cases characters with
  | nil => simp [spanBody] at found
  | cons first rest =>
      simp only [spanBody] at found
      split at found
      · simp at found
      · obtain ⟨cut, inner, same⟩ := Option.map_eq_some_iff.mp found
        simp only [Prod.mk.injEq] at same
        have tail : cut.1 ++ '\x7d' :: '\x7d' :: after = rest :=
          append_of_spanLine (by rw [inner, ← same.2])
        rw [← same.1, List.cons_append, tail]

/-- Cuts a text into pieces. Each round takes at least one character. -/
def cut : Nat → List Char → List Piece
  | 0, _ => []
  | _ + 1, [] => []
  | rounds + 1, c :: rest =>
      match c, rest with
      | '\x7b', '\x7b' :: inside =>
          match spanBody inside with
          | some (body, after) => .segment body :: cut rounds after
          | none => .character c :: cut rounds rest
      | _, _ => .character c :: cut rounds rest

def pieces (characters : List Char) : List Piece := cut (characters.length + 1) characters

theorem source_cut {rounds : Nat} {characters : List Char} (enough : characters.length < rounds) :
    (cut rounds characters).flatMap Piece.source = characters := by
  fun_induction cut rounds characters with
  | case1 => simp at enough
  | case2 => rfl
  | case3 rounds inside body after found induction =>
      have whole := append_of_spanBody found
      have shorter : after.length < rounds := by
        rw [← whole] at enough
        simp only [List.length_cons, List.length_append] at enough
        omega
      simp [Piece.source, induction shorter, whole]
  | case4 rounds inside _ induction =>
      simpa [Piece.source] using induction (by simpa using enough)
  | case5 rounds c rest _ induction =>
      simpa [Piece.source] using induction (by simpa using enough)

theorem source_pieces (characters : List Char) :
    (pieces characters).flatMap Piece.source = characters :=
  source_cut (Nat.lt_succ_self characters.length)

/-- A stretch of the text: characters that stay as they are, or a segment that
holds an expression. -/
inductive Run where
  | text (characters : List Char)
  | expression (source : List Char) (body : Expression)

namespace Run

def source : Run → List Char
  | text characters => characters
  | expression source _ => (Piece.segment source).source

def ofPiece : Piece → Run
  | .character c => text [c]
  | .segment body =>
      match Expression.parse? (String.ofList body) with
      | some parsed => expression body parsed
      | none => text (Piece.segment body).source

theorem source_ofPiece (piece : Piece) : (ofPiece piece).source = piece.source := by
  cases piece with
  | character c => rfl
  | segment body =>
      simp only [ofPiece]
      split <;> rfl

/-- Puts a run in front of others; two texts that meet become one. -/
def attach : Run → List Run → List Run
  | text front, text back :: runs => text (front ++ back) :: runs
  | run, runs => run :: runs

theorem source_attach (run : Run) (runs : List Run) :
    (run.attach runs).flatMap source = run.source ++ runs.flatMap source := by
  fun_cases attach run runs <;> simp [source]

end Run

def runs (characters : List Char) : List Run :=
  (pieces characters).foldr (fun piece rest => (Run.ofPiece piece).attach rest) []

theorem source_runs (characters : List Char) :
    (runs characters).flatMap Run.source = characters := by
  have merged (left : List Piece) :
      (left.foldr (fun piece rest => (Run.ofPiece piece).attach rest) []).flatMap Run.source =
        left.flatMap Piece.source := by
    induction left with
    | nil => rfl
    | cons piece rest induction =>
        simp [Run.source_attach, Run.source_ofPiece, induction]
  rw [runs, merged, source_pieces]

inductive Part where
  | text (content : String)
  | expression (body : Expression)

namespace Part

def ofRun : Run → Part
  | .text characters => text (String.ofList characters)
  | .expression _ body => expression body

def isExpression : Part → Bool
  | expression _ => true
  | text _ => false

end Part

def Piece.warning? : Piece → Option Warning
  | character _ => none
  | segment body =>
      match Expression.parse? (String.ofList body) with
      | some _ => none
      | none => some (.segmentKept (String.ofList body))

end Template

/-- The parts of a text with expressions in it. -/
structure Template where
  parts : List Template.Part

namespace Template

/-- The template that a text spells, unless no segment of it holds an
expression. -/
def parse? (text : String) : Option Template :=
  let parts := (runs text.toList).map Part.ofRun
  if parts.any Part.isExpression then some ⟨parts⟩ else none

def warnings (text : String) : List Warning := (pieces text.toList).filterMap Piece.warning?

def Part.shown : Part → String
  | .text content => content
  | .expression body => "\x7b\x7b " ++ body.shown ++ " \x7d\x7d"

def shown (template : Template) : String := String.join (template.parts.map Part.shown)

end Template

end ReactiveView
