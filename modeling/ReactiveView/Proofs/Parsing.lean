import Mathlib.Data.List.Basic
import ReactiveView.Proofs.Grammar

/-!
# The parser decides the grammar

A derivation is read off the tokens again when what follows it cannot continue it:
no suffix, no operator stronger than the layer of the derivation, and for a whole
expression no branches. Inside an expression the grammar puts nothing else after
its parts, so that every derivation is found and no tokens have two.
-/

namespace ReactiveView.Expression

set_option autoImplicit false

/-- The reader takes the value from the front of the tokens and leaves the rest. -/
def Takes {α : Type} (reader : Reader α) (tokens : List Token) (value : α)
    (rest : List Token) : Prop :=
  (reader tokens).map Taken.pair = some (value, rest)

/-- The tokens start with no suffix, and with no operator of at least the given
strength. -/
def Stops (least : Nat) (tokens : List Token) : Prop :=
  ∀ mark rest, tokens = .symbol mark :: rest →
    mark ∉ [Symbol.dot, .squareOpen, .roundOpen] ∧
      ∀ connective, Connective.ofSymbol? mark = some connective → connective.strength < least

/-- Nothing that the tokens start with continues an expression. -/
def Closes (tokens : List Token) : Prop :=
  Stops 0 tokens ∧ ∀ rest, tokens ≠ .symbol .question :: rest

/-- The reader finds every expression of fewer tokens, and none at a closing
bracket. -/
structure Complete (reader : Reader Expression) (bound : Nat) : Prop where
  takes : ∀ {e : Expression} {tokens rest : List Token}, Derives .expression e tokens →
    tokens.length < bound → Closes rest → Takes reader (tokens ++ rest) e rest
  refuses : ∀ rest : List Token, reader (.symbol .roundClose :: rest) = none

theorem Takes.read {α : Type} {reader : Reader α} {tokens rest : List Token} {value : α}
    (takes : Takes reader tokens value rest) :
    ∃ shorter, reader tokens = some ⟨value, rest, shorter⟩ := by
  obtain ⟨⟨found, left, shorter⟩, read, same⟩ := Option.map_eq_some_iff.mp takes
  cases same
  exact ⟨shorter, read⟩

section

variable {inner : Reader Expression} {least : Nat} {rest tokens : List Token}

theorem Stops.weaken {tighter : Nat} (stops : Stops least rest) (le : least ≤ tighter) :
    Stops tighter rest := by
  intro mark tail same
  obtain ⟨plain, weak⟩ := stops mark tail same
  exact ⟨plain, fun connective known => Nat.lt_of_lt_of_le (weak connective known) le⟩

theorem closes_nil : Closes [] := ⟨fun _ _ same => by simp at same, fun _ => by simp⟩

theorem closes_mark (mark : Symbol)
    (listed : mark ∈ [Symbol.roundClose, .squareClose, .comma, .colon]) (tail : List Token) :
    Closes (.symbol mark :: tail) := by
  simp only [List.mem_cons, List.not_mem_nil, or_false] at listed
  refine ⟨?_, ?_⟩
  · intro other after same
    cases same
    rcases listed with rfl | rfl | rfl | rfl <;> simp [Connective.ofSymbol?]
  · intro after same
    cases same
    simp at listed

theorem stops_question (tail : List Token) : Stops 0 (.symbol .question :: tail) := by
  intro mark after same
  cases same
  simp [Connective.ofSymbol?]

theorem stops_operator {mark : Symbol} {connective : Connective}
    (known : Connective.ofSymbol? mark = some connective) (tail : List Token) :
    Stops (connective.strength + 1) (.symbol mark :: tail) := by
  intro other after same
  cases same
  refine ⟨?_, ?_⟩
  · intro suffix
    simp only [List.mem_cons, List.not_mem_nil, or_false] at suffix
    rcases suffix with rfl | rfl | rfl <;> simp [Connective.ofSymbol?] at known
  · intro other found
    rw [known] at found
    cases found
    exact Nat.lt_succ_self _

theorem readJoined_of_stops (inner : Reader Expression) (stops : Stops least rest) (left : Expression) :
    (readJoined inner least left rest).pair = (left, rest) := by
  rw [readJoined_of_stuck]
  · rfl
  · intro mark tail connective same known strong
    exact absurd ((stops mark tail same).2 connective known) (by omega)

theorem readSuffix_of_stops (stops : Stops least rest) : readSuffix inner rest = none := by
  unfold readSuffix
  split
  · next name tail => exact absurd (stops .dot _ rfl).1 (by simp)
  · next tail => exact absurd (stops .squareOpen _ rfl).1 (by simp)
  · next tail => exact absurd (stops .roundOpen _ rfl).1 (by simp)
  · rfl

theorem readSuffixes_of_stops (inner : Reader Expression) (stops : Stops least rest) (target : Expression) :
    (readSuffixes inner target rest).pair = (target, rest) := by
  rw [readSuffixes, readSuffix_of_stops stops]
  rfl

theorem readSuffixes_of_takes {suffix : Suffix} (takes : Takes (readSuffix inner) tokens suffix rest)
    (target : Expression) :
    (readSuffixes inner target tokens).pair =
      (readSuffixes inner (suffix.onto target) rest).pair := by
  obtain ⟨shorter, read⟩ := takes.read
  rw [readSuffixes, read]
  exact Taken.pair_within _ _

theorem readItems_of_refused (refused : inner tokens = none) :
    (readItems inner tokens).pair = ([], tokens) := by
  rw [readItems, refused]
  rfl

theorem readItems_of_comma {e : Expression} {es : List Expression} {after : List Token}
    (takes : Takes inner tokens e (.symbol .comma :: rest))
    (others : (readItems inner rest).pair = (es, after)) :
    (readItems inner tokens).pair = (e :: es, after) := by
  obtain ⟨shorter, read⟩ := takes.read
  rw [readItems, read]
  exact congrArg (fun pair => (e :: pair.1, pair.2)) others

theorem readItems_of_close {e : Expression}
    (takes : Takes inner tokens e (.symbol .roundClose :: rest)) :
    (readItems inner tokens).pair = ([e], .symbol .roundClose :: rest) := by
  obtain ⟨shorter, read⟩ := takes.read
  rw [readItems, read]
  rfl

theorem takes_readItems {bound : Nat} (complete : Complete inner bound)
    {items : List (Expression × List Token)} {trailing : List Token}
    (each : ∀ item ∈ items, Derives .expression item.1 item.2) (trails : Trails items trailing)
    (short : (commaSeparated (items.map Prod.snd)).length < bound) (rest : List Token) :
    (readItems inner (commaSeparated (items.map Prod.snd) ++
      (trailing ++ .symbol .roundClose :: rest))).pair =
        (items.map Prod.fst, .symbol .roundClose :: rest) := by
  induction items with
  | nil =>
      have none : trailing = [] := by
        rcases trails with none | ⟨some, -⟩
        · exact none
        · exact absurd rfl some
      rw [none]
      exact readItems_of_refused (complete.refuses rest)
  | cons first others induction =>
      have derived := each first List.mem_cons_self
      cases others with
      | nil =>
          rcases trails with none | ⟨-, comma⟩
          · rw [none]
            exact readItems_of_close (complete.takes derived short (closes_mark _ (by simp) _))
          · rw [comma]
            exact readItems_of_comma (complete.takes derived short (closes_mark _ (by simp) _))
              (readItems_of_refused (complete.refuses rest))
      | cons second others =>
          have split : (commaSeparated ((first :: second :: others).map Prod.snd)).length =
              first.2.length + (commaSeparated ((second :: others).map Prod.snd)).length + 1 := by
            simp [commaSeparated, Nat.add_assoc]
          have tail := induction (fun item member => each item (List.mem_cons_of_mem _ member))
            (trails.imp id (fun comma => ⟨by simp, comma.2⟩)) (by omega)
          have step := readItems_of_comma
            (complete.takes derived (by omega) (closes_mark _ (by simp) _)) tail
          have joined : commaSeparated ((first :: second :: others).map Prod.snd) ++
              (trailing ++ .symbol .roundClose :: rest) =
                first.2 ++ .symbol .comma :: (commaSeparated ((second :: others).map Prod.snd) ++
                  (trailing ++ .symbol .roundClose :: rest)) := by
            simp [commaSeparated]
          rw [joined]
          exact step

/-- What a derivation of a category lets a reader do, whatever comes after it: an
atom and an access are taken off the front, and an operation becomes the left side
of the operators that follow. -/
def Completes (inner : Reader Expression) : Category → Expression → List Token → Prop
  | .expression, _, _ => True
  | .chain layer, e, tokens => ∀ least ≤ layer.strength, ∀ rest,
      Stops (layer.strength + 1) rest →
        Takes (readOperation inner least) (tokens ++ rest)
          (readJoined inner least e rest).value (readJoined inner least e rest).rest
  | .unary, e, tokens => ∀ least ≤ unaryStrength, ∀ rest, Stops (unaryStrength + 1) rest →
      Takes (readOperation inner least) (tokens ++ rest)
        (readJoined inner least e rest).value (readJoined inner least e rest).rest
  | .access, e, tokens => ∀ rest, readUnary inner (tokens ++ rest) = none ∧
      Takes (readAccess inner) (tokens ++ rest)
        (readSuffixes inner e rest).value (readSuffixes inner e rest).rest
  | .atom, e, tokens => ∀ rest, readUnary inner (tokens ++ rest) = none ∧
      Takes (readAtom inner) (tokens ++ rest) e rest

/-- An operation is an operand, read first, and what joins it. -/
theorem takes_readOperation {operand : Expression}
    (takes : Takes (fun tokens => (readUnary inner tokens).or (readAccess inner tokens))
      tokens operand rest) :
    Takes (readOperation inner least) tokens
      (readJoined inner least operand rest).value (readJoined inner least operand rest).rest := by
  obtain ⟨shorter, read⟩ := takes.read
  simp only [Takes, readOperation, read, Option.map_some, Taken.pair_within]
  rfl

theorem takes_readUnary {mark : Symbol} {operator : UnaryOperator} {operand : Expression}
    (known : UnaryOperator.ofSymbol? mark = some operator)
    (takes : Takes (readOperation inner unaryStrength) tokens operand rest) :
    Takes (readUnary inner) (.symbol mark :: tokens) (.unary operator operand) rest := by
  obtain ⟨shorter, read⟩ := takes.read
  simp only [Takes, readUnary, known, read]
  rfl

theorem completes_operand {layer : Layer} {e : Expression}
    (completes : Completes inner layer.operand e tokens) :
    Completes inner (.chain layer) e tokens := by
  intro least le rest stops
  cases layer <;>
    exact completes least (Nat.le_succ_of_le le) rest (stops.weaken (Nat.le_succ _))

/-- The right operand ends where the operation ends. -/
theorem takes_operand {layer : Layer} {e : Expression}
    (completes : Completes inner layer.operand e tokens) (stops : Stops (layer.strength + 1) rest) :
    Takes (readOperation inner (layer.strength + 1)) (tokens ++ rest) e rest := by
  have takes : Takes (readOperation inner (layer.strength + 1)) (tokens ++ rest)
      (readJoined inner (layer.strength + 1) e rest).value
      (readJoined inner (layer.strength + 1) e rest).rest := by
    cases layer <;> exact completes _ (Nat.le_refl _) rest (stops.weaken (Nat.le_succ _))
  have ended := readJoined_of_stops inner stops e
  exact takes.trans (congrArg some ended)

theorem completes_joined {layer : Layer} {left right : Expression} {first second : List Token}
    {mark : Symbol} {join : Expression → Expression → Expression}
    (listed : (mark, join) ∈ layer.operators) (before : Completes inner (.chain layer) left first)
    (after : Completes inner layer.operand right second) :
    Completes inner (.chain layer) (join left right) (first ++ .symbol mark :: second) := by
  intro least le rest stops
  obtain ⟨connective, known, joins, strong⟩ := Connective.ofSymbol?_of_mem listed
  have ended : Stops (layer.strength + 1) (.symbol mark :: (second ++ rest)) :=
    strong ▸ stops_operator known _
  have takes := before least le _ ended
  obtain ⟨shorter, read⟩ := (takes_operand after stops).read
  rw [← strong] at read le
  have step := readJoined_of_taken known le read left
  rw [joins] at step
  rw [List.append_assoc, List.cons_append]
  exact takes.trans (congrArg some step)

theorem completes_marked {mark : Symbol} {operator : UnaryOperator} {operand : Expression}
    (listed : (mark, operator) ∈ UnaryOperator.marks)
    (behind : Completes inner .unary operand tokens) :
    Completes inner .unary (.unary operator operand) (.symbol mark :: tokens) := by
  intro least _ rest stops
  have free : Stops unaryStrength rest := by
    intro other tail same
    refine ⟨(stops other tail same).1, fun connective _ => ?_⟩
    have weak := connective.strength_le
    simp only [unaryStrength]
    omega
  have takes : Takes (readOperation inner unaryStrength) (tokens ++ rest) operand rest :=
    (behind unaryStrength (Nat.le_refl _) rest stops).trans
      (congrArg some (readJoined_of_stops inner free operand))
  have unary := takes_readUnary (UnaryOperator.mem_marks_iff.mp listed) takes
  obtain ⟨shorter, read⟩ := unary.read
  apply takes_readOperation
  simp only [Takes, List.cons_append, read]
  rfl

theorem completes_unmarked {e : Expression} (whole : Completes inner .access e tokens) :
    Completes inner .unary e tokens := by
  intro least _ rest stops
  obtain ⟨refuses, takes⟩ := whole rest
  have access : Takes (readAccess inner) (tokens ++ rest) e rest :=
    takes.trans (congrArg some (readSuffixes_of_stops inner stops e))
  apply takes_readOperation
  simpa only [Takes, refuses, Option.none_or] using access

theorem completes_bare {e : Expression} (whole : Completes inner .atom e tokens) :
    Completes inner .access e tokens := by
  intro rest
  obtain ⟨refuses, takes⟩ := whole rest
  obtain ⟨shorter, read⟩ := takes.read
  refine ⟨refuses, ?_⟩
  simp only [Takes, readAccess, read, Option.map_some, Taken.pair_within]
  rfl

theorem completes_suffix {target : Expression} {first next : List Token} {suffix : Suffix}
    (front : Completes inner .access target first)
    (takes : ∀ rest, Takes (readSuffix inner) (next ++ rest) suffix rest) :
    Completes inner .access (suffix.onto target) (first ++ next) := by
  intro rest
  obtain ⟨refuses, access⟩ := front (next ++ rest)
  rw [List.append_assoc]
  exact ⟨refuses, access.trans (congrArg some (readSuffixes_of_takes (takes rest) target))⟩

theorem takes_member (name : String) (rest : List Token) :
    Takes (readSuffix inner) ([.symbol .dot, .identifier name] ++ rest) (.member name) rest := rfl

theorem takes_index {bound : Nat} (complete : Complete inner bound) {position : Expression}
    (inside : Derives .expression position tokens) (short : tokens.length < bound)
    (rest : List Token) :
    Takes (readSuffix inner) (.symbol .squareOpen :: (tokens ++ [.symbol .squareClose]) ++ rest)
      (.index position) rest := by
  have takes := complete.takes inside short (closes_mark .squareClose (by simp) rest)
  obtain ⟨shorter, read⟩ := takes.read
  rw [List.cons_append, List.append_assoc, List.singleton_append]
  simp only [Takes, readSuffix, read]
  rfl

theorem takes_call {bound : Nat} (complete : Complete inner bound)
    {items : List (Expression × List Token)} {trailing : List Token}
    (each : ∀ item ∈ items, Derives .expression item.1 item.2) (trails : Trails items trailing)
    (short : (commaSeparated (items.map Prod.snd)).length < bound) (rest : List Token) :
    Takes (readSuffix inner) (.symbol .roundOpen ::
      (commaSeparated (items.map Prod.snd) ++ trailing ++ [.symbol .roundClose]) ++ rest)
        (.call (items.map Prod.fst)) rest := by
  have read := takes_readItems complete each trails short rest
  rw [List.cons_append, List.append_assoc, List.append_assoc, List.singleton_append]
  generalize within : readItems inner (commaSeparated (items.map Prod.snd) ++
    (trailing ++ .symbol .roundClose :: rest)) = taken at read
  obtain ⟨value, left, shorter⟩ := taken
  cases read
  simp only [Takes, readSuffix, within]
  rfl

theorem completes_literal {value : Literal} {token : Token} (spelled : value.Spelled token) :
    Completes inner .atom (.literal value) [token] := by
  intro rest
  refine ⟨?_, ?_⟩
  · cases spelled <;> simp [readUnary]
  · cases spelled <;> rfl

theorem completes_identifier (name : String) :
    Completes inner .atom (.identifier name) [.identifier name] := by
  intro rest
  exact ⟨by simp [readUnary], rfl⟩

theorem completes_bracketed {bound : Nat} (complete : Complete inner bound) {e : Expression}
    (inside : Derives .expression e tokens) (short : tokens.length < bound) :
    Completes inner .atom e (.symbol .roundOpen :: (tokens ++ [.symbol .roundClose])) := by
  intro rest
  have takes := complete.takes inside short (closes_mark .roundClose (by simp) rest)
  obtain ⟨shorter, read⟩ := takes.read
  rw [List.cons_append, List.append_assoc, List.singleton_append]
  refine ⟨by simp [readUnary, UnaryOperator.ofSymbol?], ?_⟩
  simp only [Takes, readAtom, read]
  rfl

theorem completes_of_derives {bound : Nat} (complete : Complete inner bound) {category : Category}
    {e : Expression} (derived : Derives category e tokens) (short : tokens.length ≤ bound) :
    Completes inner category e tokens := by
  induction derived with
  | operation => trivial
  | conditional => trivial
  | operand layer _ whole => exact completes_operand (whole short)
  | joined layer listed _ _ before after =>
      simp only [List.length_append, List.length_cons] at short
      exact completes_joined listed (before (by omega)) (after (by omega))
  | marked listed _ behind =>
      exact completes_marked listed (behind (Nat.le_of_succ_le short))
  | unmarked _ whole => exact completes_unmarked (whole short)
  | bare _ whole => exact completes_bare (whole short)
  | member name _ front =>
      rw [List.length_append] at short
      exact completes_suffix (front (by omega)) (takes_member name)
  | index _ inside front _ =>
      simp only [List.length_append, List.length_cons] at short
      exact completes_suffix (front (by omega)) (takes_index complete inside (by omega))
  | call _ each trails front _ =>
      simp only [List.length_append, List.length_cons] at short
      exact completes_suffix (front (by omega)) (takes_call complete each trails (by omega))
  | literal spelled => exact completes_literal spelled
  | identifier name => exact completes_identifier name
  | bracketed inside _ =>
      simp only [List.length_append, List.length_cons] at short
      exact completes_bracketed complete inside (by omega)

theorem takes_chain {bound : Nat} (complete : Complete inner bound) {e : Expression}
    (derived : Derives (.chain .or) e tokens) (short : tokens.length ≤ bound)
    (stops : Stops 0 rest) : Takes (readOperation inner 0) (tokens ++ rest) e rest :=
  (completes_of_derives complete derived short 0 (Nat.zero_le _) rest
      (stops.weaken (Nat.zero_le _))).trans
    (congrArg some (readJoined_of_stops inner stops e))

theorem takes_readConditional {bound : Nat} (complete : Complete inner bound) {e : Expression}
    (derived : Derives .expression e tokens) (short : tokens.length < bound + 1)
    (closes : Closes rest) : Takes (readConditional inner) (tokens ++ rest) e rest := by
  cases derived with
  | operation whole =>
      obtain ⟨shorter, read⟩ := (takes_chain complete whole (by omega) closes.1).read
      have plain : readBranches inner rest = none := by
        unfold readBranches
        split
        · next tail => exact absurd rfl (closes.2 tail)
        · rfl
      simp only [Takes, readConditional, read, plain]
      rfl
  | @conditional condition consequent alternative first second third guard positive negative =>
      simp only [List.length_append, List.length_cons] at short
      have question : Takes (readOperation inner 0) (first ++ .symbol .question ::
          (second ++ .symbol .colon :: (third ++ rest))) condition _ :=
        takes_chain complete guard (by omega) (stops_question _)
      have colon := complete.takes positive (by omega)
        (closes_mark .colon (by simp) (third ++ rest))
      obtain ⟨shorter, readCondition⟩ := question.read
      obtain ⟨shorter', readConsequent⟩ := colon.read
      obtain ⟨shorter'', readAlternative⟩ := (complete.takes negative (by omega) closes).read
      simp only [List.append_assoc, List.cons_append]
      simp only [Takes, readConditional, readCondition, readBranches, readConsequent,
        readAlternative]
      rfl

theorem readConditional_refuses (inner : Reader Expression) (rest : List Token) :
    readConditional inner (.symbol .roundClose :: rest) = none := by
  have unary : readUnary inner (.symbol .roundClose :: rest) = none := by
    simp [readUnary, UnaryOperator.ofSymbol?]
  simp only [readConditional, readOperation, unary, readAccess, readAtom, Option.or_none]

/-- Reading at a depth finds every expression of fewer tokens. -/
theorem complete_readNested (depth : Nat) : Complete (readNested depth) depth := by
  induction depth with
  | zero => exact ⟨fun _ short _ => absurd short (Nat.not_lt_zero _), fun _ => rfl⟩
  | succ depth induction =>
      exact ⟨fun derived short closes => takes_readConditional induction derived short closes,
        readConditional_refuses _⟩

end

theorem ofTokens?_of_derives {e : Expression} {tokens : List Token}
    (derived : Derives .expression e tokens) : ofTokens? tokens = some e := by
  have takes := (complete_readNested (tokens.length + 1)).takes derived (Nat.lt_succ_self _)
    closes_nil
  rw [List.append_nil] at takes
  obtain ⟨shorter, read⟩ := takes.read
  rw [ofTokens?, read]

/-- Tokens are read to the end as an expression exactly if the grammar derives it
from them, and it derives no other from them. -/
theorem parsing_decides_grammar (tokens : List Token) :
    (∀ e, ofTokens? tokens = some e ↔ Derives .expression e tokens) ∧
      ∀ e e', Derives .expression e tokens → Derives .expression e' tokens → e = e' := by
  refine ⟨fun e => ⟨derives_of_ofTokens?, ofTokens?_of_derives⟩, ?_⟩
  intro e e' derived derived'
  have read := ofTokens?_of_derives derived
  rw [ofTokens?_of_derives derived'] at read
  exact (Option.some.inj read).symm

end ReactiveView.Expression
