import ReactiveView.Proofs.Lexing
import ReactiveView.Proofs.Parsing

/-!
# What is written reads back

An expression is written as tokens that the grammar derives it from, in the category
of its own strength; its brackets stand where an operand is weaker than its place
demands. The characters are cut into these tokens again, so that reading a written
expression gives it back, if each of its numbers is written as one token.
-/

namespace ReactiveView

set_option autoImplicit false

open Token (Apart Cuts Names apart_nil apart_mark)

namespace Literal

def token : Literal → Token
  | null => .keyword .null
  | bool true => .keyword .true
  | bool false => .keyword .false
  | number value => .number value
  | text value => .text (String.ofList (value.toList.flatMap quotedCharacter))

theorem spelled_token (value : Literal) : value.Spelled value.token := by
  cases value with
  | null => exact .null
  | bool value => cases value <;> constructor
  | number value => exact .number value
  | text value =>
      have spelled := Spelled.text (String.ofList (value.toList.flatMap quotedCharacter))
      rwa [String.toList_ofList, Token.unescape_written, String.ofList_toList] at spelled

end Literal

namespace UnaryOperator

def mark : UnaryOperator → Symbol
  | not => .bang
  | negate => .minus
  | plus => .plus

theorem spelling_mark (operator : UnaryOperator) : operator.mark.spelling = operator.symbol := by
  cases operator <;> rfl

theorem mem_marks (operator : UnaryOperator) : (operator.mark, operator) ∈ marks := by
  cases operator <;> decide

end UnaryOperator

namespace Connective

def mark : Connective → Symbol
  | binary .multiply => .asterisk
  | binary .divide => .slash
  | binary .remainder => .percent
  | binary .add => .plus
  | binary .subtract => .minus
  | binary .less => .less
  | binary .lessOrEqual => .lessOrEqual
  | binary .greater => .greater
  | binary .greaterOrEqual => .greaterOrEqual
  | binary .equal => .equal
  | binary .notEqual => .notEqual
  | binary .strictEqual => .strictEqual
  | binary .strictNotEqual => .strictNotEqual
  | logical .and => .and
  | logical .or => .or

theorem ofSymbol?_mark (connective : Connective) : ofSymbol? connective.mark = some connective := by
  rcases connective with operator | operator <;> cases operator <;> rfl

theorem spelling_mark_binary (operator : BinaryOperator) :
    (binary operator).mark.spelling = operator.symbol := by
  cases operator <;> rfl

theorem spelling_mark_logical (operator : LogicalOperator) :
    (logical operator).mark.spelling = operator.symbol := by
  cases operator <;> rfl

theorem one_le_strength (connective : Connective) : 1 ≤ connective.strength := by
  rcases connective with operator | operator <;> cases operator <;> decide

end Connective

namespace Expression

def bracketedTokens (demanded strength : Nat) (operand : List Token) : List Token :=
  if strength < demanded then .symbol .roundOpen :: (operand ++ [.symbol .roundClose]) else operand

def tokens : Expression → List Token
  | literal value => [value.token]
  | identifier name => [.identifier name]
  | member target name =>
      bracketedTokens accessStrength target.strength target.tokens ++
        [.symbol .dot, .identifier name]
  | index target position =>
      bracketedTokens accessStrength target.strength target.tokens ++
        .symbol .squareOpen :: (position.tokens ++ [.symbol .squareClose])
  | call callee arguments =>
      bracketedTokens accessStrength callee.strength callee.tokens ++
        .symbol .roundOpen :: (listTokens arguments ++ [.symbol .roundClose])
  | unary operator operand =>
      .symbol operator.mark :: bracketedTokens unaryStrength operand.strength operand.tokens
  | binary operator left right =>
      bracketedTokens operator.strength left.strength left.tokens ++
        .symbol (Connective.binary operator).mark ::
          bracketedTokens (operator.strength + 1) right.strength right.tokens
  | logical operator left right =>
      bracketedTokens operator.strength left.strength left.tokens ++
        .symbol (Connective.logical operator).mark ::
          bracketedTokens (operator.strength + 1) right.strength right.tokens
  | conditional condition consequent alternative =>
      bracketedTokens 1 condition.strength condition.tokens ++
        .symbol .question ::
          (consequent.tokens ++ .symbol .colon :: alternative.tokens)
where
  listTokens : List Expression → List Token
    | [] => []
    | [last] => last.tokens
    | first :: second :: rest => first.tokens ++ .symbol .comma :: listTokens (second :: rest)

/-- The numbers that stand in an expression, in the order of its parts. -/
def numbers : Expression → List Float
  | literal (.number value) => [value]
  | literal _ => []
  | identifier _ => []
  | member target _ => target.numbers
  | index target position => target.numbers ++ position.numbers
  | call callee arguments => callee.numbers ++ listNumbers arguments
  | unary _ operand => operand.numbers
  | binary _ left right => left.numbers ++ right.numbers
  | logical _ left right => left.numbers ++ right.numbers
  | conditional condition consequent alternative =>
      condition.numbers ++ consequent.numbers ++ alternative.numbers
where
  listNumbers : List Expression → List Float
    | [] => []
    | first :: rest => first.numbers ++ listNumbers rest

/-- The category in which an expression is written. -/
def category (e : Expression) : Category :=
  if e.strength = 0 then .expression else .ofStrength e.strength

theorem category_of_pos {e : Expression} (pos : 1 ≤ e.strength) :
    e.category = .ofStrength e.strength :=
  if_neg (by omega)

theorem derives_expression {e : Expression} {tokens : List Token}
    (derived : Derives e.category e tokens) : Derives .expression e tokens := by
  unfold category at derived
  split at derived
  · exact derived
  · exact .operation (derived.loosen_le (Nat.zero_le _))

theorem derives_bracketed {e : Expression} {tokens : List Token} (demanded : Nat)
    (derived : Derives e.category e tokens) (some : 1 ≤ demanded) (le : demanded ≤ accessStrength) :
    Derives (.ofStrength demanded) e (bracketedTokens demanded e.strength tokens) := by
  unfold bracketedTokens
  split
  · have access : Derives (.ofStrength accessStrength) e _ :=
      .bare (.bracketed (derives_expression derived))
    exact access.loosen_le le
  · next strong =>
      rw [category_of_pos (by omega)] at derived
      exact derived.loosen_le (by omega)

theorem derives_infix (connective : Connective) {left right : Expression}
    {first second : List Token} (before : Derives left.category left first)
    (after : Derives right.category right second) :
    Derives (.ofStrength connective.strength) (connective.join left right)
      (bracketedTokens connective.strength left.strength first ++ .symbol connective.mark ::
        bracketedTokens (connective.strength + 1) right.strength second) := by
  obtain ⟨layer, layered, listed⟩ := Connective.mem_operators connective.ofSymbol?_mark
  have weak := connective.strength_le
  have before := derives_bracketed connective.strength before connective.one_le_strength
    (by simp only [accessStrength]; omega)
  have after := derives_bracketed (connective.strength + 1) after (by omega)
    (by simp only [accessStrength]; omega)
  rw [← layered, Category.ofStrength_layer] at before
  rw [← layered, Category.ofStrength_layer_succ] at after
  rw [← layered, Category.ofStrength_layer]
  exact .joined layer listed before after

theorem listTokens_eq (arguments : List Expression) :
    tokens.listTokens arguments = commaSeparated (arguments.map tokens) := by
  match arguments with
  | [] => rfl
  | [last] => rfl
  | first :: second :: rest =>
      have tail := listTokens_eq (second :: rest)
      rw [List.map_cons] at tail
      rw [tokens.listTokens, List.map_cons, List.map_cons, commaSeparated, tail]

mutual

theorem derives_tokens (e : Expression) : Derives e.category e e.tokens := by
  cases e with
  | literal value => exact .bare (.literal value.spelled_token)
  | identifier name => exact .bare (.identifier name)
  | member target name =>
      exact .member name (derives_bracketed _ (derives_tokens target) (by decide) (Nat.le_refl _))
  | index target position =>
      exact .index (derives_bracketed _ (derives_tokens target) (by decide) (Nat.le_refl _))
        (derives_expression (derives_tokens position))
  | call callee arguments =>
      have front := derives_bracketed _ (derives_tokens callee) (by decide) (Nat.le_refl _)
      have each : ∀ item ∈ arguments.map (fun a => (a, a.tokens)),
          Derives .expression item.1 item.2 := by
        simpa using derives_listTokens arguments
      have whole := Derives.call front each (.inl rfl)
      have callees : (arguments.map (fun a => (a, a.tokens))).map Prod.fst = arguments := by
        simp [Function.comp_def]
      rw [callees, List.map_map, List.append_nil] at whole
      rw [tokens, listTokens_eq]
      exact whole
  | unary operator operand =>
      have behind := derives_bracketed unaryStrength (derives_tokens operand)
        (by decide) (by decide)
      exact .marked operator.mem_marks behind
  | binary operator left right =>
      have pos : 1 ≤ (binary operator left right).strength :=
        Connective.one_le_strength (.binary operator)
      rw [category_of_pos pos]
      exact derives_infix (.binary operator) (derives_tokens left)
        (derives_tokens right)
  | logical operator left right =>
      have pos : 1 ≤ (logical operator left right).strength :=
        Connective.one_le_strength (.logical operator)
      rw [category_of_pos pos]
      exact derives_infix (.logical operator) (derives_tokens left)
        (derives_tokens right)
  | conditional condition consequent alternative =>
      exact .conditional (derives_bracketed _ (derives_tokens condition) (Nat.le_refl _) (by decide))
        (derives_expression (derives_tokens consequent))
        (derives_expression (derives_tokens alternative))

theorem derives_listTokens (arguments : List Expression) :
    ∀ a ∈ arguments, Derives .expression a a.tokens := by
  cases arguments with
  | nil => simp
  | cons first rest =>
      intro a member
      rcases List.mem_cons.mp member with same | later
      · exact same ▸ derives_expression (derives_tokens first)
      · exact derives_listTokens rest a later

end

/-- A name among the tokens is a word, and a number is written as one token. -/
def Readable (token : Token) : Prop :=
  (∀ name, token = .identifier name → Names name.toList) ∧
    ∀ value, token = .number value → Cuts (Number.text value).toList [.number value]

/-- The characters are cut into the tokens in front of every text that stands
apart. -/
def CutsBefore (characters : List Char) (tokens : List Token) : Prop :=
  ∀ {rest : List Char} {others : List Token}, Apart rest → Cuts rest others →
    Cuts (characters ++ rest) (tokens ++ others)

/-- The characters are cut into the tokens, and can follow an operator: an equals sign
would belong to it. -/
structure Reads (characters : List Char) (tokens : List Token) : Prop where
  cuts : CutsBefore characters tokens
  head : ∃ c tail, characters = c :: tail ∧ c ≠ '='

theorem Reads.unassigned {characters : List Char} {tokens : List Token}
    (reads : Reads characters tokens) (rest tail : List Char) :
    characters ++ rest ≠ '=' :: tail := by
  obtain ⟨c, inner, same, other⟩ := reads.head
  rw [same]
  intro equal
  exact other (List.cons.inj equal).1

theorem Reads.append {first second : List Char} {firstTokens secondTokens : List Token}
    (reads : Reads first firstTokens) (cuts : CutsBefore second secondTokens)
    (apart : ∀ rest, Apart rest → Apart (second ++ rest)) :
    Reads (first ++ second) (firstTokens ++ secondTokens) := by
  refine ⟨fun {rest others} apartRest cutsRest => ?_, ?_⟩
  · rw [List.append_assoc, List.append_assoc]
    exact reads.cuts (apart rest apartRest) (cuts apartRest cutsRest)
  · obtain ⟨c, tail, same, other⟩ := reads.head
    exact ⟨c, tail ++ second, by rw [same, List.cons_append], other⟩

theorem reads_literal {value : Literal} (readable : Readable value.token) :
    Reads value.written [value.token] := by
  have word (characters : List Char) (c : Char) (rest : List Char) (token : Token)
      (same : characters = c :: rest) (starts : Token.startsWord c = true)
      (continues : rest.all Token.continuesWord = true)
      (spelled : Token.ofWord (String.ofList (c :: rest)) = token) : Reads characters [token] := by
    subst same
    have continues := List.all_eq_true.mp continues
    refine ⟨fun apart cuts => spelled ▸ Token.cuts_word starts continues apart cuts, c, rest, rfl, ?_⟩
    rintro rfl
    revert starts
    decide
  match value with
  | .null => exact word _ 'n' ['u', 'l', 'l'] _ rfl (by decide) (by decide) (by decide)
  | .bool true => exact word _ 't' ['r', 'u', 'e'] _ rfl (by decide) (by decide) (by decide)
  | .bool false => exact word _ 'f' ['a', 'l', 's', 'e'] _ rfl (by decide) (by decide) (by decide)
  | .number number =>
      have cuts := readable.2 number rfl
      exact ⟨fun apart rest => Token.cuts_number cuts apart rest, Token.head_of_number cuts⟩
  | .text text =>
      exact ⟨fun _ cuts => Token.cuts_quoted text.toList cuts, '\'', _, rfl, by decide⟩

theorem reads_identifier {name : String} (readable : Readable (.identifier name)) :
    Reads name.toList [.identifier name] := by
  have names := readable.1 name rfl
  refine ⟨fun apart cuts => Token.cuts_name names apart cuts, ?_⟩
  obtain ⟨c, tail, same, starts, -⟩ := names
  refine ⟨c, tail, same, ?_⟩
  rintro rfl
  revert starts
  decide

theorem reads_bracketed {characters : List Char} {tokens : List Token}
    (reads : Reads characters tokens) (demanded strength : Nat) :
    Reads (bracketed demanded strength characters) (bracketedTokens demanded strength tokens) := by
  unfold bracketed bracketedTokens
  split
  · refine ⟨fun {rest others} apart cuts => ?_, '(', _, rfl, by decide⟩
    rw [List.append_assoc, List.cons_append, List.singleton_append, List.cons_append,
      List.append_assoc, List.singleton_append]
    exact Token.cuts_symbol .roundOpen (reads.unassigned _)
      (reads.cuts (apart_mark rest (by simp))
        (Token.cuts_symbol .roundClose apart.unassigned cuts))
  · exact reads

theorem cutsBefore_member {name : String} (readable : Readable (.identifier name)) :
    CutsBefore ('.' :: name.toList) [.symbol .dot, .identifier name] := by
  intro rest others apart cuts
  have reads := reads_identifier readable
  exact Token.cuts_symbol .dot (reads.unassigned rest) (reads.cuts apart cuts)

theorem apart_member {name : String} (readable : Readable (.identifier name)) (rest : List Char) :
    Apart ('.' :: name.toList ++ rest) := by
  obtain ⟨c, tail, same, starts, -⟩ := readable.1 name rfl
  rw [same]
  exact Token.apart_point starts (tail ++ rest)

theorem cutsBefore_index {characters : List Char} {tokens : List Token}
    (reads : Reads characters tokens) :
    CutsBefore ('[' :: characters ++ [']'])
      (.symbol .squareOpen :: (tokens ++ [.symbol .squareClose])) := by
  intro rest others apart cuts
  rw [List.append_assoc, List.cons_append, List.singleton_append, List.cons_append,
    List.append_assoc, List.singleton_append]
  exact Token.cuts_symbol .squareOpen (reads.unassigned _)
    (reads.cuts (apart_mark rest (by simp))
      (Token.cuts_symbol .squareClose apart.unassigned cuts))

theorem cutsBefore_call {characters : List Char} {tokens : List Token}
    (reads : characters = [] ∧ tokens = [] ∨ Reads characters tokens) :
    CutsBefore ('(' :: characters ++ [')'])
      (.symbol .roundOpen :: (tokens ++ [.symbol .roundClose])) := by
  intro rest others apart cuts
  have close := Token.cuts_symbol .roundClose apart.unassigned cuts
  rcases reads with ⟨rfl, rfl⟩ | reads
  · exact Token.cuts_symbol .roundOpen (fun tail same => by simp at same) close
  · rw [List.append_assoc, List.cons_append, List.singleton_append, List.cons_append,
      List.append_assoc, List.singleton_append]
    exact Token.cuts_symbol .roundOpen (reads.unassigned _)
      (reads.cuts (apart_mark rest (by simp)) close)

theorem cutsBefore_spaced {characters : List Char} {tokens : List Token} (mark : Symbol)
    (cuts : CutsBefore characters tokens) :
    CutsBefore (' ' :: mark.spelling.toList ++ ' ' :: characters) (.symbol mark :: tokens) := by
  intro rest others apart cutsRest
  have space : [' '].dropWhile Text.isBlank = [] := by decide
  have inner := Token.cuts_symbol mark (fun tail same => by simp at same)
    (.blanks space (cuts apart cutsRest))
  simpa using Cuts.blanks space inner

theorem reads_listed {first second : List Char} {firstTokens secondTokens : List Token}
    (reads : Reads first firstTokens) (others : Reads second secondTokens) :
    Reads (first ++ ',' :: ' ' :: second) (firstTokens ++ .symbol .comma :: secondTokens) := by
  refine reads.append ?_ (fun rest _ => apart_mark _ (by simp))
  intro rest tokens apart cuts
  have space : [' '].dropWhile Text.isBlank = [] := by decide
  exact Token.cuts_symbol .comma (fun tail same => by simp at same)
    (.blanks space (others.cuts apart cuts))

theorem reads_infix {left right : List Char} {leftTokens rightTokens : List Token}
    (mark : Symbol) (before : Reads left leftTokens) (after : Reads right rightTokens) :
    Reads (left ++ ' ' :: mark.spelling.toList ++ ' ' :: right)
      (leftTokens ++ .symbol mark :: rightTokens) := by
  rw [List.append_assoc]
  exact before.append (cutsBefore_spaced mark after.cuts) (fun rest _ => apart_mark _ (by simp))

theorem mem_bracketedTokens {token : Token} {tokens : List Token} (member : token ∈ tokens)
    (demanded strength : Nat) : token ∈ bracketedTokens demanded strength tokens := by
  unfold bracketedTokens
  split
  · exact List.mem_cons_of_mem _ (List.mem_append_left _ member)
  · exact member

mutual

theorem reads_written (e : Expression) (readable : ∀ token ∈ e.tokens, Readable token) :
    Reads e.written e.tokens := by
  cases e with
  | literal value => exact reads_literal (readable _ List.mem_cons_self)
  | identifier name => exact reads_identifier (readable _ List.mem_cons_self)
  | member target name =>
      simp only [tokens, List.mem_append, List.mem_cons] at readable
      have front := reads_written target fun token member =>
        readable token (.inl (mem_bracketedTokens member _ _))
      have word := readable (.identifier name) (.inr (.inr (.inl rfl)))
      exact (reads_bracketed front _ _).append (cutsBefore_member word)
        (fun rest _ => apart_member word rest)
  | index target position =>
      simp only [tokens, List.mem_append, List.mem_cons] at readable
      have front := reads_written target fun token member =>
        readable token (.inl (mem_bracketedTokens member _ _))
      have inside := reads_written position fun token member =>
        readable token (.inr (.inr (.inl member)))
      rw [written, List.append_assoc]
      exact (reads_bracketed front _ _).append (cutsBefore_index inside)
        (fun rest _ => apart_mark _ (by simp))
  | call callee arguments =>
      simp only [tokens, List.mem_append, List.mem_cons] at readable
      have front := reads_written callee fun token member =>
        readable token (.inl (mem_bracketedTokens member _ _))
      have inside : written.writtenList arguments = [] ∧ tokens.listTokens arguments = [] ∨
          Reads (written.writtenList arguments) (tokens.listTokens arguments) := by
        by_cases none : arguments = []
        · exact .inl (by rw [none]; exact ⟨rfl, rfl⟩)
        · exact .inr (reads_writtenList arguments none fun token member =>
            readable token (.inr (.inr (.inl member))))
      rw [written, List.append_assoc]
      exact (reads_bracketed front _ _).append (cutsBefore_call inside)
        (fun rest _ => apart_mark _ (by simp))
  | unary operator operand =>
      simp only [tokens, List.mem_cons] at readable
      have inner := reads_bracketed (reads_written operand fun token member =>
        readable token (.inr (mem_bracketedTokens member _ _))) unaryStrength operand.strength
      rw [written, ← UnaryOperator.spelling_mark]
      refine ⟨fun {rest others} apart cuts => ?_, ?_⟩
      · rw [List.append_assoc]
        exact Token.cuts_symbol operator.mark (inner.unassigned rest) (inner.cuts apart cuts)
      · cases operator <;> exact ⟨_, _, rfl, by decide⟩
  | binary operator left right =>
      simp only [tokens, List.mem_append, List.mem_cons] at readable
      have before := reads_written left fun token member =>
        readable token (.inl (mem_bracketedTokens member _ _))
      have after := reads_written right fun token member =>
        readable token (.inr (.inr (mem_bracketedTokens member _ _)))
      rw [written, ← Connective.spelling_mark_binary]
      exact reads_infix _ (reads_bracketed before _ _) (reads_bracketed after _ _)
  | logical operator left right =>
      simp only [tokens, List.mem_append, List.mem_cons] at readable
      have before := reads_written left fun token member =>
        readable token (.inl (mem_bracketedTokens member _ _))
      have after := reads_written right fun token member =>
        readable token (.inr (.inr (mem_bracketedTokens member _ _)))
      rw [written, ← Connective.spelling_mark_logical]
      exact reads_infix _ (reads_bracketed before _ _) (reads_bracketed after _ _)
  | conditional condition consequent alternative =>
      simp only [tokens, List.mem_append, List.mem_cons] at readable
      have guard := reads_written condition fun token member =>
        readable token (.inl (mem_bracketedTokens member _ _))
      have positive := reads_written consequent fun token member =>
        readable token (.inr (.inr (.inl member)))
      have negative := reads_written alternative fun token member =>
        readable token (.inr (.inr (.inr (.inr member))))
      have branches := reads_infix .colon positive negative
      have whole := reads_infix .question (reads_bracketed guard 1 condition.strength) branches
      simpa [written, tokens, Symbol.spelling] using whole

theorem reads_writtenList (arguments : List Expression) (some : arguments ≠ [])
    (readable : ∀ token ∈ tokens.listTokens arguments, Readable token) :
    Reads (written.writtenList arguments) (tokens.listTokens arguments) := by
  match arguments with
  | [] => exact absurd rfl some
  | [last] => exact reads_written last readable
  | first :: second :: rest =>
      simp only [tokens.listTokens, List.mem_append, List.mem_cons] at readable
      have front := reads_written first fun token member => readable token (.inl member)
      have others := reads_writtenList (second :: rest) (by simp) fun token member =>
        readable token (.inr (.inr member))
      exact reads_listed front others

end

section

variable {token : Token} (plain : ∀ mark, token ≠ .symbol mark)

include plain

theorem mem_bracketedTokens_iff {demanded strength : Nat} {tokens : List Token} :
    token ∈ bracketedTokens demanded strength tokens ↔ token ∈ tokens := by
  unfold bracketedTokens
  split <;> simp [plain]

theorem mem_commaSeparated_iff {pieces : List (List Token)} :
    token ∈ commaSeparated pieces ↔ ∃ piece ∈ pieces, token ∈ piece := by
  fun_induction commaSeparated pieces with
  | case1 => simp
  | case2 last => simp
  | case3 first second rest induction => simp [plain, induction]

end

theorem tokens_join (connective : Connective) (left right : Expression) :
    (connective.join left right).tokens =
      bracketedTokens connective.strength left.strength left.tokens ++
        .symbol connective.mark ::
          bracketedTokens (connective.strength + 1) right.strength right.tokens := by
  cases connective <;> rfl

theorem name_mem_of_derives {category : Category} {e : Expression} {spelled : List Token}
    {name : String} (derived : Derives category e spelled)
    (member : .identifier name ∈ e.tokens) : .identifier name ∈ spelled := by
  have plain : ∀ mark, Token.identifier name ≠ .symbol mark := by simp
  induction derived with
  | operation _ whole => exact whole member
  | operand _ _ whole => exact whole member
  | unmarked _ whole => exact whole member
  | bare _ whole => exact whole member
  | conditional _ _ _ guard positive negative =>
      simp only [tokens, List.mem_append, List.mem_cons, plain, false_or,
        mem_bracketedTokens_iff plain] at member ⊢
      exact member.imp guard (Or.imp positive negative)
  | joined layer listed _ _ before after =>
      obtain ⟨connective, -, rfl, -⟩ := Connective.ofSymbol?_of_mem listed
      simp only [tokens_join, List.mem_append, List.mem_cons, plain, false_or,
        mem_bracketedTokens_iff plain] at member ⊢
      exact member.imp before after
  | marked _ _ behind =>
      simp only [tokens, List.mem_cons, plain, false_or, mem_bracketedTokens_iff plain] at member ⊢
      exact behind member
  | member other _ front =>
      simp only [tokens, List.mem_append, mem_bracketedTokens_iff plain] at member ⊢
      exact member.imp front id
  | index _ _ front inside =>
      simp only [tokens, List.mem_append, List.mem_cons, plain, false_or, List.not_mem_nil,
        or_false, mem_bracketedTokens_iff plain] at member ⊢
      exact member.imp front inside
  | call _ _ trails front each =>
      simp only [tokens, listTokens_eq, List.mem_append, List.mem_cons, plain, false_or,
        List.not_mem_nil, or_false, mem_bracketedTokens_iff plain,
        mem_commaSeparated_iff plain] at member ⊢
      refine member.imp front ?_
      rintro ⟨piece, listed, inside⟩
      obtain ⟨_, among, rfl⟩ := List.mem_map.mp listed
      obtain ⟨item, known, rfl⟩ := List.mem_map.mp among
      exact .inl ⟨item.2, List.mem_map_of_mem known, each item known inside⟩
  | @literal value _ _ =>
      rw [tokens, List.mem_singleton] at member
      match value with
      | .null => cases member
      | .bool true => cases member
      | .bool false => cases member
      | .number _ => cases member
      | .text _ => cases member
  | identifier other => exact member
  | bracketed _ inside =>
      exact List.mem_cons_of_mem _ (List.mem_append_left _ (inside member))

mutual

theorem mem_numbers (e : Expression) {value : Float} (member : .number value ∈ e.tokens) :
    value ∈ e.numbers := by
  have plain : ∀ mark, Token.number value ≠ .symbol mark := by simp
  cases e with
  | literal literal =>
      rw [tokens, List.mem_singleton] at member
      match literal with
      | .null => cases member
      | .bool true => cases member
      | .bool false => cases member
      | .number _ =>
          cases member
          exact List.mem_cons_self
      | .text _ => cases member
  | identifier name => simp [tokens] at member
  | member target name =>
      simp only [tokens, List.mem_append, List.mem_cons, reduceCtorEq, List.not_mem_nil, or_false,
        mem_bracketedTokens_iff plain] at member
      exact mem_numbers target member
  | index target position =>
      simp only [tokens, List.mem_append, List.mem_cons, plain, false_or, List.not_mem_nil,
        or_false, mem_bracketedTokens_iff plain] at member
      exact List.mem_append.mpr (member.imp (mem_numbers target) (mem_numbers position))
  | call callee arguments =>
      simp only [tokens, List.mem_append, List.mem_cons, plain, false_or, List.not_mem_nil,
        or_false, mem_bracketedTokens_iff plain] at member
      exact List.mem_append.mpr (member.imp (mem_numbers callee) (mem_listNumbers arguments))
  | unary operator operand =>
      simp only [tokens, List.mem_cons, plain, false_or, mem_bracketedTokens_iff plain] at member
      exact mem_numbers operand member
  | binary operator left right =>
      simp only [tokens, List.mem_append, List.mem_cons, plain, false_or,
        mem_bracketedTokens_iff plain] at member
      exact List.mem_append.mpr (member.imp (mem_numbers left) (mem_numbers right))
  | logical operator left right =>
      simp only [tokens, List.mem_append, List.mem_cons, plain, false_or,
        mem_bracketedTokens_iff plain] at member
      exact List.mem_append.mpr (member.imp (mem_numbers left) (mem_numbers right))
  | conditional condition consequent alternative =>
      simp only [tokens, List.mem_append, List.mem_cons, plain, false_or,
        mem_bracketedTokens_iff plain] at member
      simp only [numbers, List.mem_append]
      rcases member with guard | positive | negative
      · exact .inl (.inl (mem_numbers condition guard))
      · exact .inl (.inr (mem_numbers consequent positive))
      · exact .inr (mem_numbers alternative negative)

theorem mem_listNumbers (arguments : List Expression) {value : Float}
    (member : .number value ∈ tokens.listTokens arguments) :
    value ∈ numbers.listNumbers arguments := by
  match arguments with
  | [] => simp [tokens.listTokens] at member
  | [last] => exact List.mem_append_left _ (mem_numbers last member)
  | first :: second :: rest =>
      simp only [tokens.listTokens, List.mem_append, List.mem_cons, reduceCtorEq,
        false_or] at member
      rw [numbers.listNumbers, List.mem_append]
      exact member.imp (mem_numbers first) (mem_listNumbers (second :: rest))

end

theorem ofTokens?_nil : ofTokens? [] = none := by
  simp [ofTokens?, readNested, readConditional, readOperation, readUnary, readAccess, readAtom]

/-- A number that is written as one token of its own. -/
def Written (value : Float) : Prop :=
  (Token.lexemes (Number.text value)).map (List.map Lexeme.token) = some [.number value]

/-- Reading what is written for an expression that was read gives the expression
again, if its numbers are written as one token each. -/
theorem parse_shown {source : String} {e : Expression} (parsed : parse? source = some e)
    (numbers : ∀ value ∈ e.numbers, Written value) : parse? e.shown = some e := by
  obtain ⟨lexemes, cut, read⟩ := Option.bind_eq_some_iff.mp parsed
  have readable : ∀ token ∈ e.tokens, Readable token := by
    intro token member
    refine ⟨?_, ?_⟩
    · rintro name rfl
      exact (Token.cuts_of_lexemes cut).names (name_mem_of_derives (derives_of_ofTokens? read) member)
    · rintro value rfl
      obtain ⟨own, found, same⟩ := Option.map_eq_some_iff.mp (numbers value (mem_numbers e member))
      exact same ▸ Token.cuts_of_lexemes found
  have reads := reads_written e readable
  have cuts : Cuts e.shown.toList e.tokens := by
    have whole := reads.cuts apart_nil (.done rfl)
    rwa [List.append_nil, List.append_nil, ← String.toList_ofList (l := e.written)] at whole
  have derived := derives_expression (derives_tokens e)
  have full : e.tokens ≠ [] := by
    intro none
    have read := ofTokens?_of_derives derived
    rw [none, ofTokens?_nil] at read
    simp at read
  obtain ⟨own, found, same⟩ := Option.map_eq_some_iff.mp (Token.lexemes_of_cuts full cuts)
  rw [parse?, found, Option.bind_some, same]
  exact ofTokens?_of_derives derived

theorem parse_shown_nested :
    ∃ e, parse? "!a[\"it's\"] ? -(b + 1.5) * c(d - (1 - f), (g ? h : i) ? 'x\\\\' : j,) : (k).l" =
        some e ∧
      (∀ value ∈ e.numbers, Written value) ∧ parse? e.shown = some e := by
  have parsed : parse?
      "!a[\"it's\"] ? -(b + 1.5) * c(d - (1 - f), (g ? h : i) ? 'x\\\\' : j,) : (k).l" =
        some (.conditional
          (.unary .not (.index (.identifier "a") (.literal (.text "it's"))))
          (.binary .multiply
            (.unary .negate (.binary .add (.identifier "b") (.literal (.number 1.5))))
            (.call (.identifier "c")
              [.binary .subtract (.identifier "d")
                (.binary .subtract (.literal (.number 1)) (.identifier "f")),
                .conditional
                  (.conditional (.identifier "g") (.identifier "h") (.identifier "i"))
                  (.literal (.text "x\\")) (.identifier "j")]))
          (.member (.identifier "k") "l")) := by
    decide +kernel
  have numbers : ∀ value ∈ [1.5, 1], Written value := by
    unfold Written
    decide +kernel
  exact ⟨_, parsed, numbers, parse_shown parsed numbers⟩

end Expression

end ReactiveView
