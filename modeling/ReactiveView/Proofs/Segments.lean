import Mathlib.Data.List.Chain
import ReactiveView.Reactive.Evaluation

/-!
# The segments of a template

A text is cut at its leftmost segments, each as short as it can be, one after the other.
The parts of a template are the expressions of the segments that hold one, each where its
segment stood, and the text between them; its value is the text with these filled in.
-/

namespace ReactiveView

set_option autoImplicit false

namespace Template

variable {characters body after : List Char}

/-- A text starts with a segment: opening braces, at least one character with no end of line
among them, and closing braces. -/
structure Starts (characters body : List Char) : Prop where
  some : body ≠ []
  line : ∀ c ∈ body, isLineEnd c = false
  spelled : (Piece.segment body).source <+: characters

/-- The segments of a text from a place on, each by its place and what is between its
braces: the leftmost one, as short as can be, and then those from its end on. -/
inductive Cuts (characters : List Char) : Nat → List (Nat × List Char) → Prop
  | none {start : Nat}
      (nowhere : ∀ place, start ≤ place → ∀ body, ¬ Starts (characters.drop place) body) :
      Cuts characters start []
  | segment {start place : Nat} {body : List Char} {rest : List (Nat × List Char)}
      (onwards : start ≤ place)
      (leftmost : ∀ earlier, start ≤ earlier → earlier < place →
        ∀ other, ¬ Starts (characters.drop earlier) other)
      (starts : Starts (characters.drop place) body)
      (shortest : ∀ other, Starts (characters.drop place) other → body.length ≤ other.length)
      (others : Cuts characters (place + (Piece.segment body).source.length) rest) :
      Cuts characters start ((place, body) :: rest)

theorem length_segment (body : List Char) :
    (Piece.segment body).source.length = body.length + 4 := by
  simp [Piece.source]

theorem Starts.eq_of_length {other : List Char} (starts : Starts characters body)
    (starts' : Starts characters other) (same : body.length = other.length) : body = other := by
  have lengths : (Piece.segment body).source.length = (Piece.segment other).source.length := by
    rw [length_segment, length_segment, same]
  have sources := (List.prefix_of_prefix_length_le starts.spelled starts'.spelled
    (Nat.le_of_eq lengths)).eq_of_length lengths
  simpa using (List.append_inj' sources rfl).1

/-- A text has its segments in one way. -/
theorem Cuts.unique {start : Nat} {segments others : List (Nat × List Char)}
    (cuts : Cuts characters start segments) (cuts' : Cuts characters start others) :
    segments = others := by
  induction cuts generalizing others with
  | none nowhere =>
      cases cuts' with
      | none => rfl
      | segment onwards _ starts => exact absurd starts (nowhere _ onwards _)
  | @segment start place body rest onwards leftmost starts shortest _ induction =>
      cases cuts' with
      | none nowhere => exact absurd starts (nowhere _ onwards _)
      | @segment _ place' body' rest' onwards' leftmost' starts' shortest' others' =>
          have first : ¬ place < place' := fun before => leftmost' place onwards before _ starts
          have second : ¬ place' < place := fun before => leftmost place' onwards' before _ starts'
          obtain rfl : place = place' := by omega
          obtain rfl : body = body' := by
            have shorter := shortest body' starts'
            have shorter' := shortest' body starts
            exact starts.eq_of_length starts' (by omega)
          rw [induction others']

theorem spanLine_of_closed (rest : List Char) (line : ∀ c ∈ body, isLineEnd c = false) :
    ∃ found after, spanLine (body ++ '\x7d' :: '\x7d' :: rest) = some (found, after) ∧
      found.length ≤ body.length := by
  induction body with
  | nil => exact ⟨[], rest, rfl, Nat.le_refl 0⟩
  | cons c body induction =>
      obtain ⟨found, after, spanned, short⟩ :=
        induction fun other member => line other (List.mem_cons_of_mem c member)
      have same : isLineEnd c = false := line c List.mem_cons_self
      rw [List.cons_append]
      unfold spanLine
      split
      · next empty => cases empty
      · exact ⟨[], _, rfl, Nat.zero_le _⟩
      · next first others _ equal =>
          cases equal
          rw [if_neg (by simp [same]), spanned]
          exact ⟨c :: found, after, rfl, Nat.succ_le_succ short⟩

theorem line_of_spanLine (found : spanLine characters = some (body, after)) :
    ∀ c ∈ body, isLineEnd c = false := by
  fun_induction spanLine characters generalizing body with
  | case1 => simp at found
  | case2 rest =>
      simp only [Option.some.injEq, Prod.mk.injEq] at found
      simp [← found.1]
  | case3 => simp at found
  | case4 c rest _ inLine induction =>
      obtain ⟨cut, inner, same⟩ := Option.map_eq_some_iff.mp found
      simp only [Prod.mk.injEq] at same
      intro other member
      rw [← same.1] at member
      rcases List.mem_cons.mp member with rfl | member
      · exact Bool.eq_false_iff.mpr inLine
      · exact induction (by rw [inner, ← same.2]) other member

theorem starts_of_spanBody {inside : List Char}
    (found : spanBody inside = some (body, after)) :
    Starts ('\x7b' :: '\x7b' :: inside) body ∧
      ∀ other, Starts ('\x7b' :: '\x7b' :: inside) other → body.length ≤ other.length := by
  have whole := append_of_spanBody found
  cases inside with
  | nil => simp [spanBody] at found
  | cons first rest =>
      simp only [spanBody] at found
      split at found
      · simp at found
      · next inLine =>
          obtain ⟨cut, inner, same⟩ := Option.map_eq_some_iff.mp found
          simp only [Prod.mk.injEq] at same
          have line : ∀ c ∈ body, isLineEnd c = false := by
            rw [← same.1]
            intro c member
            rcases List.mem_cons.mp member with rfl | member
            · exact Bool.eq_false_iff.mpr inLine
            · exact line_of_spanLine inner c member
          refine ⟨⟨?_, line, ⟨after, ?_⟩⟩, ?_⟩
          · rw [← same.1]
            exact List.cons_ne_nil _ _
          · rw [← whole]
            simp [Piece.source]
          · intro other starts
            obtain ⟨some, line', others, spelled⟩ := starts
            obtain ⟨c, tail, rfl⟩ := List.exists_cons_of_ne_nil some
            simp only [Piece.source, List.cons_append, List.append_assoc, List.nil_append,
              List.cons.injEq, true_and] at spelled
            obtain ⟨found', after', spanned, short⟩ := spanLine_of_closed others
              (fun c member => line' c (List.mem_cons_of_mem _ member))
            rw [spelled.2, inner] at spanned
            cases spanned
            rw [← same.1]
            exact Nat.succ_le_succ short

theorem not_starts_of_spanBody {inside : List Char} (none : spanBody inside = none)
    (body : List Char) : ¬ Starts ('\x7b' :: '\x7b' :: inside) body := by
  rintro ⟨some, line, others, spelled⟩
  obtain ⟨c, tail, rfl⟩ := List.exists_cons_of_ne_nil some
  simp only [Piece.source, List.cons_append, List.append_assoc, List.nil_append,
    List.cons.injEq, true_and] at spelled
  obtain ⟨found, after, spanned, -⟩ := spanLine_of_closed others
    (fun c member => line c (List.mem_cons_of_mem _ member))
  have inLine := line c List.mem_cons_self
  rw [← spelled] at none
  simp [spanBody, inLine, spanned] at none

/-- The segments among some pieces, by their places. -/
def segmentsFrom : Nat → List Piece → List (Nat × List Char)
  | _, [] => []
  | start, .character _ :: rest => segmentsFrom (start + 1) rest
  | start, .segment body :: rest =>
      (start, body) :: segmentsFrom (start + (Piece.segment body).source.length) rest

theorem Cuts.skip {start : Nat} {segments : List (Nat × List Char)}
    (nowhere : ∀ body, ¬ Starts (characters.drop start) body)
    (cuts : Cuts characters (start + 1) segments) : Cuts characters start segments := by
  have further {place : Nat} {body : List Char} (onwards : start ≤ place)
      (starts : Starts (characters.drop place) body) : start + 1 ≤ place := by
    rcases Nat.eq_or_lt_of_le onwards with rfl | later
    · exact absurd starts (nowhere body)
    · exact later
  cases cuts with
  | none nowhere' =>
      refine .none fun place onwards body starts => ?_
      exact nowhere' place (further onwards starts) body starts
  | segment onwards leftmost starts shortest others =>
      refine .segment (by omega) ?_ starts shortest others
      intro earlier onwards' before other starts'
      exact leftmost earlier (further onwards' starts') before other starts'

theorem drop_further {start count : Nat} {rest tail : List Char}
    (here : characters.drop start = rest) (further : rest.drop count = tail) :
    characters.drop (start + count) = tail := by
  rw [← List.drop_drop, here, further]

theorem cuts_cut {rounds start : Nat} {rest : List Char} (enough : rest.length < rounds)
    (here : characters.drop start = rest) :
    Cuts characters start (segmentsFrom start (cut rounds rest)) := by
  fun_induction cut rounds rest generalizing start with
  | case1 => simp at enough
  | case2 rounds =>
      refine .none fun place onwards body starts => ?_
      have empty : characters.drop place = [] := by
        have length := congrArg List.length here
        simp only [List.length_drop, List.length_nil] at length
        exact List.drop_eq_nil_of_le (by omega)
      have bound := starts.spelled.length_le
      rw [empty, length_segment, List.length_nil] at bound
      omega
  | case3 rounds inside body after found induction =>
      have whole := append_of_spanBody found
      obtain ⟨starts, shortest⟩ := starts_of_spanBody found
      have shorter : after.length < rounds := by
        rw [← whole] at enough
        simp only [List.length_cons, List.length_append] at enough
        omega
      have spelled : (Piece.segment body).source ++ after = '\x7b' :: '\x7b' :: inside := by
        simp [Piece.source, ← whole]
      have next : characters.drop (start + (Piece.segment body).source.length) = after := by
        apply drop_further here
        rw [← spelled, List.drop_left]
      rw [← here] at starts shortest
      exact .segment (Nat.le_refl start) (fun _ _ _ => by omega) starts shortest
        (induction shorter next)
  | case4 rounds inside none induction =>
      refine Cuts.skip ?_ (induction (by simpa using enough) (drop_further here rfl))
      rw [here]
      exact not_starts_of_spanBody none
  | case5 rounds c tail noBraces induction =>
      refine Cuts.skip ?_ (induction (by simpa using enough) (drop_further here rfl))
      rw [here]
      rintro body ⟨-, -, others, spelled⟩
      simp only [Piece.source, List.cons_append, List.cons.injEq] at spelled
      exact noBraces _ spelled.1.symm spelled.2.symm

theorem cuts_pieces (characters : List Char) :
    Cuts characters 0 (segmentsFrom 0 (pieces characters)) :=
  cuts_cut (Nat.lt_succ_self characters.length) rfl

/-- Three braces open at the first one, a closing brace can be a body, and a line that ends
has no segment. -/
example :
    segmentsFrom 0
        (pieces "\x7b\x7b\x7ba\x7d\x7d \x7b\x7b\x7d\x7d\x7d \x7b\x7b\n\x7d\x7d".toList) =
      [(0, ['\x7b', 'a']), (7, ['\x7d'])] := by decide

def held? (segment : Nat × List Char) : Option (Nat × List Char × Expression) :=
  (Expression.parse? (String.ofList segment.2)).map (fun body => (segment.1, segment.2, body))

namespace Run

/-- The expressions among some runs, by the places of their segments. -/
def expressionsFrom : Nat → List Run → List (Nat × List Char × Expression)
  | _, [] => []
  | start, .text characters :: rest => expressionsFrom (start + characters.length) rest
  | start, .expression body parsed :: rest =>
      (start, body, parsed) :: expressionsFrom (start + (Piece.segment body).source.length) rest

def isText : Run → Bool
  | text _ => true
  | expression _ _ => false

theorem expressionsFrom_attach (start : Nat) (run : Run) (rest : List Run) :
    expressionsFrom start (run.attach rest) = expressionsFrom start (run :: rest) := by
  fun_cases attach run rest with
  | case1 front back rest => simp [expressionsFrom, Nat.add_assoc]
  | case2 => rfl

theorem expressionsFrom_foldr (start : Nat) (cuts : List Piece) :
    expressionsFrom start (cuts.foldr (fun piece rest => (ofPiece piece).attach rest) []) =
      (segmentsFrom start cuts).filterMap held? := by
  induction cuts generalizing start with
  | nil => rfl
  | cons piece rest induction =>
      rw [List.foldr_cons, expressionsFrom_attach]
      cases piece with
      | character c => simpa [ofPiece, expressionsFrom, segmentsFrom] using induction (start + 1)
      | segment body =>
          cases parsed : Expression.parse? (String.ofList body) with
          | none =>
              have kept : ofPiece (.segment body) = .text (Piece.segment body).source := by
                simp only [ofPiece, parsed]
              simp [kept, expressionsFrom, segmentsFrom, held?, parsed, induction]
          | some expression =>
              have taken : ofPiece (.segment body) = .expression body expression := by
                simp only [ofPiece, parsed]
              simp [taken, expressionsFrom, segmentsFrom, held?, parsed, induction]

/-- No text is empty, and none follows another. -/
structure Apart (runs : List Run) : Prop where
  filled : ∀ run ∈ runs, run ≠ .text []
  separate : runs.IsChain (fun first second => (first.isText && second.isText) = false)

theorem Apart.cons {run : Run} {rest : List Run} (apart : Apart rest) (filled : run ≠ .text [])
    (meets : ∀ next ∈ rest.head?, (run.isText && next.isText) = false) : Apart (run :: rest) where
  filled := by
    intro other member
    rcases List.mem_cons.mp member with rfl | member
    · exact filled
    · exact apart.filled other member
  separate := List.isChain_cons.mpr ⟨meets, apart.separate⟩

theorem Apart.attach {run : Run} {rest : List Run} (apart : Apart rest)
    (filled : run ≠ .text []) : Apart (run.attach rest) := by
  cases run with
  | expression body parsed => exact apart.cons filled (fun _ _ => rfl)
  | text front =>
      cases rest with
      | nil => exact apart.cons filled (fun _ none => by cases none)
      | cons next rest =>
          cases next with
          | expression body parsed =>
              refine apart.cons filled fun next first => ?_
              rw [← Option.some.inj first]
              rfl
          | text back =>
              -- the longer text meets the same runs as the one at its end
              obtain ⟨meets, separate⟩ := List.isChain_cons.mp apart.separate
              have others : Apart rest :=
                ⟨fun other member => apart.filled other (List.mem_cons_of_mem _ member), separate⟩
              have longer : Run.text (front ++ back) ≠ .text [] := by
                intro empty
                rw [Run.text.injEq, List.append_eq_nil_iff] at empty
                exact filled (congrArg Run.text empty.1)
              exact others.cons longer meets

theorem ofPiece_ne_empty (piece : Piece) : ofPiece piece ≠ .text [] := by
  have spelled := source_ofPiece piece
  intro empty
  rw [empty] at spelled
  cases piece <;> cases spelled

end Run

theorem apart_runs (characters : List Char) : Run.Apart (runs characters) := by
  have each (cuts : List Piece) :
      Run.Apart (cuts.foldr (fun piece rest => (Run.ofPiece piece).attach rest) []) := by
    induction cuts with
    | nil => exact ⟨fun _ none => absurd none List.not_mem_nil, .nil⟩
    | cons piece rest induction => exact induction.attach (Run.ofPiece_ne_empty piece)
  exact each (pieces characters)

theorem expressionsFrom_runs (characters : List Char) :
    Run.expressionsFrom 0 (runs characters) =
      (segmentsFrom 0 (pieces characters)).filterMap held? :=
  Run.expressionsFrom_foldr 0 (pieces characters)

namespace Run

def body? : Run → Option Expression
  | .text _ => none
  | .expression _ body => some body

def filled : List Run → List String → String
  | [], _ => ""
  | .text characters :: rest, texts => String.ofList characters ++ filled rest texts
  | .expression _ _ :: rest, first :: texts => first ++ filled rest texts
  | .expression _ _ :: rest, [] => filled rest []

theorem bodies_expressionsFrom (start : Nat) (runs : List Run) :
    runs.filterMap body? = (expressionsFrom start runs).map (fun held => held.2.2) := by
  induction runs generalizing start with
  | nil => rfl
  | cons run rest induction =>
      cases run with
      | text characters => exact induction (start + characters.length)
      | expression body parsed =>
          have first : body? (.expression body parsed) = some parsed := rfl
          rw [List.filterMap_cons_some first, expressionsFrom, List.map_cons,
            induction (start + (Piece.segment body).source.length)]

end Run

end Template

namespace Engine

variable {κ σ : Type}

def evaluateText (invoke : Invoke κ σ) (context : Context κ) (body : Expression) :
    Engine κ σ String := do
  let value ← evaluate invoke context body
  let store ← look State.store
  pure (store.text value)

/-- The expressions are evaluated from left to right, and the runs filled with their texts. -/
theorem evaluateParts_runs (invoke : Invoke κ σ) (context : Context κ)
    (runs : List Template.Run) :
    evaluateParts invoke context (runs.map Template.Part.ofRun) = (do
      let texts ← collect (evaluateText invoke context) (runs.filterMap Template.Run.body?)
      pure (Template.Run.filled runs texts)) := by
  induction runs with
  | nil => rfl
  | cons run rest induction =>
      cases run with
      | text characters =>
          have none : Template.Run.body? (.text characters) = none := rfl
          simp only [List.map_cons, Template.Part.ofRun, evaluateParts, induction, bind_assoc,
            List.filterMap_cons_none none, Template.Run.filled]
          rfl
      | expression body parsed =>
          have some : Template.Run.body? (.expression body parsed) = some parsed := rfl
          simp only [List.map_cons, Template.Part.ofRun, evaluateParts, induction, bind_assoc,
            List.filterMap_cons_some some, collect, evaluateText]
          rfl

end Engine

namespace Template

namespace Run

theorem any_isExpression (start : Nat) (runs : List Run) :
    (runs.map Part.ofRun).any Part.isExpression = !(expressionsFrom start runs).isEmpty := by
  induction runs generalizing start with
  | nil => rfl
  | cons run rest induction =>
      cases run with
      | text characters => exact induction (start + characters.length)
      | expression body parsed => rfl

theorem Apart.parts {runs : List Run} (apart : Apart runs) :
    (∀ part ∈ runs.map Part.ofRun, part ≠ .text "") ∧
      (runs.map Part.ofRun).IsChain
        (fun first second => (first.isExpression || second.isExpression) = true) := by
  constructor
  · intro part member
    obtain ⟨run, among, rfl⟩ := List.mem_map.mp member
    intro empty
    cases run with
    | expression body parsed => cases empty
    | text characters =>
        have none : characters = [] := by simpa [Part.ofRun] using empty
        exact apart.filled _ among (congrArg Run.text none)
  · rw [List.isChain_map]
    refine apart.separate.imp fun first second meets => ?_
    cases first <;> cases second <;> simp_all [Part.ofRun, Part.isExpression, isText]

end Run

/-- The template that a text spells has the expressions of its segments as parts, each
where its segment stood, and the other text between them; its value has the text of each
value there. -/
structure Spelled (template : Template) (text : String) (segments : List (Nat × List Char))
    (runs : List Run) : Prop where
  parts : template.parts = runs.map Part.ofRun
  source : runs.flatMap Run.source = text.toList
  expressions : Run.expressionsFrom 0 runs = segments.filterMap held?
  filled : ∀ part ∈ template.parts, part ≠ .text ""
  separate : template.parts.IsChain
    (fun first second => (first.isExpression || second.isExpression) = true)
  value : ∀ {κ σ : Type} (invoke : Invoke κ σ) (context : Context κ),
    Engine.evaluateFormula invoke context (.template template) = (do
      let texts ← Engine.collect (Engine.evaluateText invoke context)
        ((segments.filterMap held?).map (fun held => held.2.2))
      pure (.text (Run.filled runs texts)))

theorem spelled_runs (text : String) :
    Spelled ⟨(runs text.toList).map Part.ofRun⟩ text (segmentsFrom 0 (pieces text.toList))
      (runs text.toList) where
  parts := rfl
  source := source_runs text.toList
  expressions := expressionsFrom_runs text.toList
  filled := (apart_runs text.toList).parts.1
  separate := (apart_runs text.toList).parts.2
  value := by
    intro κ σ invoke context
    rw [Engine.evaluateFormula, Engine.evaluateParts_runs, Run.bodies_expressionsFrom 0,
      expressionsFrom_runs, bind_assoc]
    rfl

/-- A text without a segment that holds an expression is no template. -/
theorem parse?_eq (text : String) :
    parse? text =
      if ((segmentsFrom 0 (pieces text.toList)).filterMap held?).isEmpty then none
      else some ⟨(runs text.toList).map Part.ofRun⟩ := by
  rw [← expressionsFrom_runs]
  simp only [parse?, Run.any_isExpression 0, Bool.not_eq_true']
  cases (Run.expressionsFrom 0 (runs text.toList)).isEmpty <;> rfl

theorem warnings_eq (start : Nat) (cuts : List Piece) :
    cuts.filterMap Piece.warning? = (segmentsFrom start cuts).filterMap (fun segment =>
      (Piece.segment segment.2).warning?) := by
  induction cuts generalizing start with
  | nil => rfl
  | cons piece rest induction =>
      cases piece with
      | character c => exact induction (start + 1)
      | segment body =>
          rw [segmentsFrom, List.filterMap_cons, List.filterMap_cons, induction]

end Template

/-- A text has one cut into leftmost segments, and is read as a template along it, unless no
segment holds an expression. -/
theorem templates_split (text : String) :
    ∃ segments : List (Nat × List Char),
      (∀ other, Template.Cuts text.toList 0 other ↔ other = segments) ∧
      Template.segmentsFrom 0 (Template.pieces text.toList) = segments ∧
      Template.warnings text = segments.filterMap (fun segment =>
        match Expression.parse? (String.ofList segment.2) with
        | some _ => none
        | none => some (.segmentKept (String.ofList segment.2))) ∧
      match Template.parse? text with
      | none => ∀ segment ∈ segments, Expression.parse? (String.ofList segment.2) = none
      | some template =>
          (∃ segment ∈ segments, (Expression.parse? (String.ofList segment.2)).isSome = true) ∧
          ∃ runs, template.Spelled text segments runs := by
  have cuts := Template.cuts_pieces text.toList
  have spelled := Template.spelled_runs text
  refine ⟨_, fun other => ⟨fun cuts' => cuts'.unique cuts, fun same => same ▸ cuts⟩, rfl,
    Template.warnings_eq 0 _, ?_⟩
  rw [Template.parse?_eq]
  generalize Template.segmentsFrom 0 (Template.pieces text.toList) = segments at spelled ⊢
  cases held : segments.filterMap Template.held? with
  | nil =>
      intro segment member
      have none := List.filterMap_eq_nil_iff.mp held segment member
      exact Option.map_eq_none_iff.mp none
  | cons first rest =>
      refine ⟨?_, _, spelled⟩
      have member : first ∈ segments.filterMap Template.held? := held ▸ List.mem_cons_self
      obtain ⟨segment, among, taken⟩ := List.mem_filterMap.mp member
      obtain ⟨body, parsed, -⟩ := Option.map_eq_some_iff.mp taken
      exact ⟨segment, among, Option.isSome_of_eq_some parsed⟩

end ReactiveView
