import Mathlib.Data.List.Basic
import ReactiveView.Expression.Parser

/-!
# The grammar of expressions

A layer of infix operators takes its operands from the next tighter layer and
groups to the left; below the tightest layer stand unary operators, then accesses,
then atoms. A conditional stands above all layers.

What a reader takes from the front of some tokens is derived by the grammar. An
operation that ends before an operator does so because that operator has no right
operand there, and then it has none in any operation around it either.
-/

namespace ReactiveView

set_option autoImplicit false

/-- The layers of infix operators, the loosest one first. -/
inductive Layer where
  | or
  | and
  | equality
  | relation
  | sum
  | product
  deriving DecidableEq

inductive Category where
  | expression
  | chain (layer : Layer)
  | unary
  | access
  | atom
  deriving DecidableEq

namespace Layer

/-- The operators of a layer, each with what it makes of its operands. -/
def operators : Layer → List (Symbol × (Expression → Expression → Expression))
  | or => [(.or, .logical .or)]
  | and => [(.and, .logical .and)]
  | equality =>
      [(.equal, .binary .equal), (.notEqual, .binary .notEqual),
        (.strictEqual, .binary .strictEqual), (.strictNotEqual, .binary .strictNotEqual)]
  | relation =>
      [(.less, .binary .less), (.lessOrEqual, .binary .lessOrEqual),
        (.greater, .binary .greater), (.greaterOrEqual, .binary .greaterOrEqual)]
  | sum => [(.plus, .binary .add), (.minus, .binary .subtract)]
  | product =>
      [(.asterisk, .binary .multiply), (.slash, .binary .divide),
        (.percent, .binary .remainder)]

def operand : Layer → Category
  | or => .chain .and
  | and => .chain .equality
  | equality => .chain .relation
  | relation => .chain .sum
  | sum => .chain .product
  | product => .unary

def strength : Layer → Nat
  | or => 1
  | and => 2
  | equality => 3
  | relation => 4
  | sum => 5
  | product => 6

end Layer

namespace UnaryOperator

def marks : List (Symbol × UnaryOperator) := [(.bang, not), (.minus, negate), (.plus, plus)]

end UnaryOperator

/-- The literal that a token alone spells. -/
inductive Literal.Spelled : Literal → Token → Prop where
  | number (value : Float) : Spelled (.number value) (.number value)
  | text (raw : String) :
      Spelled (.text (String.ofList (Expression.unescape raw.toList))) (.text raw)
  | true : Spelled (.bool true) (.keyword .true)
  | false : Spelled (.bool false) (.keyword .false)
  | null : Spelled .null (.keyword .null)

/-- Pieces with a comma between each two of them. -/
def commaSeparated : List (List Token) → List Token
  | [] => []
  | [last] => last
  | first :: second :: rest => first ++ .symbol .comma :: commaSeparated (second :: rest)

/-- What may stand between the last of some items and the closing bracket. -/
def Trails (items : List (Expression × List Token)) (trailing : List Token) : Prop :=
  trailing = [] ∨ items ≠ [] ∧ trailing = [.symbol .comma]

/-- The tokens spell the expression as one of the given category. -/
inductive Derives : Category → Expression → List Token → Prop where
  | operation {e : Expression} {tokens : List Token}
      (whole : Derives (.chain .or) e tokens) :
      Derives .expression e tokens
  | conditional {condition consequent alternative : Expression} {first second third : List Token}
      (guard : Derives (.chain .or) condition first)
      (positive : Derives .expression consequent second)
      (negative : Derives .expression alternative third) :
      Derives .expression (.conditional condition consequent alternative)
        (first ++ .symbol .question :: (second ++ .symbol .colon :: third))
  | operand (layer : Layer) {e : Expression} {tokens : List Token}
      (whole : Derives layer.operand e tokens) :
      Derives (.chain layer) e tokens
  | joined (layer : Layer) {left right : Expression} {first second : List Token} {mark : Symbol}
      {join : Expression → Expression → Expression}
      (listed : (mark, join) ∈ layer.operators)
      (before : Derives (.chain layer) left first)
      (after : Derives layer.operand right second) :
      Derives (.chain layer) (join left right) (first ++ .symbol mark :: second)
  | marked {operand : Expression} {tokens : List Token} {mark : Symbol} {operator : UnaryOperator}
      (listed : (mark, operator) ∈ UnaryOperator.marks)
      (behind : Derives .unary operand tokens) :
      Derives .unary (.unary operator operand) (.symbol mark :: tokens)
  | unmarked {e : Expression} {tokens : List Token} (whole : Derives .access e tokens) :
      Derives .unary e tokens
  | bare {e : Expression} {tokens : List Token} (whole : Derives .atom e tokens) :
      Derives .access e tokens
  | member {target : Expression} {first : List Token} (name : String)
      (front : Derives .access target first) :
      Derives .access (.member target name) (first ++ [.symbol .dot, .identifier name])
  | index {target position : Expression} {first second : List Token}
      (front : Derives .access target first)
      (inside : Derives .expression position second) :
      Derives .access (.index target position)
        (first ++ .symbol .squareOpen :: (second ++ [.symbol .squareClose]))
  | call {callee : Expression} {first trailing : List Token}
      {items : List (Expression × List Token)}
      (front : Derives .access callee first)
      (each : ∀ item ∈ items, Derives .expression item.1 item.2)
      (trails : Trails items trailing) :
      Derives .access (.call callee (items.map Prod.fst))
        (first ++ .symbol .roundOpen ::
          (commaSeparated (items.map Prod.snd) ++ trailing ++ [.symbol .roundClose]))
  | literal {value : Literal} {token : Token} (spelled : value.Spelled token) :
      Derives .atom (.literal value) [token]
  | identifier (name : String) : Derives .atom (.identifier name) [.identifier name]
  | bracketed {e : Expression} {tokens : List Token} (inside : Derives .expression e tokens) :
      Derives .atom e (.symbol .roundOpen :: (tokens ++ [.symbol .roundClose]))

namespace Category

/-- The category of the operations that hold together at least as tightly as
told. -/
def ofStrength : Nat → Category
  | 0 | 1 => .chain .or
  | 2 => .chain .and
  | 3 => .chain .equality
  | 4 => .chain .relation
  | 5 => .chain .sum
  | 6 => .chain .product
  | 7 => .unary
  | _ => .access

@[simp] theorem ofStrength_layer (layer : Layer) : ofStrength layer.strength = .chain layer := by
  cases layer <;> rfl

@[simp] theorem ofStrength_layer_succ (layer : Layer) :
    ofStrength (layer.strength + 1) = layer.operand := by
  cases layer <;> rfl

end Category

theorem Derives.loosen {e : Expression} {tokens : List Token} {strength : Nat}
    (derived : Derives (.ofStrength (strength + 1)) e tokens) :
    Derives (.ofStrength strength) e tokens := by
  match strength with
  | 0 => exact derived
  | 1 => exact .operand .or derived
  | 2 => exact .operand .and derived
  | 3 => exact .operand .equality derived
  | 4 => exact .operand .relation derived
  | 5 => exact .operand .sum derived
  | 6 => exact .operand .product derived
  | 7 => exact .unmarked derived
  | _ + 8 => exact derived

theorem Derives.loosen_le {e : Expression} {tokens : List Token} {loose tight : Nat}
    (le : loose ≤ tight) (derived : Derives (.ofStrength tight) e tokens) :
    Derives (.ofStrength loose) e tokens := by
  induction le with
  | refl => exact derived
  | step _ induction => exact induction derived.loosen

namespace Connective

theorem mem_operators {mark : Symbol} {connective : Connective}
    (known : ofSymbol? mark = some connective) :
    ∃ layer : Layer, layer.strength = connective.strength ∧
      (mark, connective.join) ∈ layer.operators := by
  cases mark <;> cases known
  case plus | minus => exact ⟨.sum, rfl, by simp [Layer.operators, join]⟩
  case asterisk | slash | percent => exact ⟨.product, rfl, by simp [Layer.operators, join]⟩
  case strictEqual | strictNotEqual | equal | notEqual =>
    exact ⟨.equality, rfl, by simp [Layer.operators, join]⟩
  case greaterOrEqual | greater | lessOrEqual | less =>
    exact ⟨.relation, rfl, by simp [Layer.operators, join]⟩
  case and => exact ⟨.and, rfl, by simp [Layer.operators, join]⟩
  case or => exact ⟨.or, rfl, by simp [Layer.operators, join]⟩

theorem ofSymbol?_of_mem {layer : Layer} {mark : Symbol}
    {join : Expression → Expression → Expression} (listed : (mark, join) ∈ layer.operators) :
    ∃ connective, ofSymbol? mark = some connective ∧ connective.join = join ∧
      connective.strength = layer.strength := by
  cases layer <;>
    simp only [Layer.operators, List.mem_cons, Prod.mk.injEq, List.not_mem_nil, or_false] at listed
  case or | and =>
    obtain ⟨rfl, rfl⟩ := listed
    exact ⟨_, rfl, rfl, rfl⟩
  case equality | relation =>
    obtain ⟨rfl, rfl⟩ | ⟨rfl, rfl⟩ | ⟨rfl, rfl⟩ | ⟨rfl, rfl⟩ := listed <;>
      exact ⟨_, rfl, rfl, rfl⟩
  case sum =>
    obtain ⟨rfl, rfl⟩ | ⟨rfl, rfl⟩ := listed <;> exact ⟨_, rfl, rfl, rfl⟩
  case product =>
    obtain ⟨rfl, rfl⟩ | ⟨rfl, rfl⟩ | ⟨rfl, rfl⟩ := listed <;> exact ⟨_, rfl, rfl, rfl⟩

theorem strength_le (connective : Connective) : connective.strength ≤ 6 := by
  rcases connective with operator | operator <;> cases operator <;> decide

end Connective

namespace UnaryOperator

theorem mem_marks_iff {mark : Symbol} {operator : UnaryOperator} :
    (mark, operator) ∈ marks ↔ ofSymbol? mark = some operator := by
  cases mark <;> cases operator <;> decide

end UnaryOperator

namespace Expression

/-- The tokens start with ones that spell what was taken. -/
def Spells (category : Category) (tokens : List Token) {bound : Nat}
    (taken : Taken Expression bound) : Prop :=
  ∃ front, tokens = front ++ taken.rest ∧ Derives category taken.value front

/-- What the reader takes is an expression. -/
def Sound (reader : Reader Expression) : Prop :=
  ∀ tokens taken, reader tokens = some taken → Spells .expression tokens taken

/-- An operator in front that is at least as strong as told has no right operand. -/
def Stuck (inner : Reader Expression) (least : Nat) (tokens : List Token) : Prop :=
  ∀ mark rest connective, tokens = .symbol mark :: rest →
    Connective.ofSymbol? mark = some connective → least ≤ connective.strength →
    readOperation inner (connective.strength + 1) rest = none

variable {inner : Reader Expression} {tokens : List Token}

theorem spells_of_readAtom (sound : Sound inner) {taken : Taken Expression tokens.length}
    (read : readAtom inner tokens = some taken) : Spells .atom tokens taken := by
  unfold readAtom at read
  split at read
  case h_1 value rest =>
    cases read
    exact ⟨[.number value], rfl, .literal (.number value)⟩
  case h_2 raw rest =>
    cases read
    exact ⟨[.text raw], rfl, .literal (.text raw)⟩
  case h_3 rest =>
    cases read
    exact ⟨[.keyword .true], rfl, .literal .true⟩
  case h_4 rest =>
    cases read
    exact ⟨[.keyword .false], rfl, .literal .false⟩
  case h_5 rest =>
    cases read
    exact ⟨[.keyword .null], rfl, .literal .null⟩
  case h_6 name rest =>
    cases read
    exact ⟨[.identifier name], rfl, .identifier name⟩
  case h_7 rest =>
    split at read
    · next e after shorter within =>
        cases read
        obtain ⟨front, same, derived⟩ := sound _ _ within
        simp only at same derived
        exact ⟨.symbol .roundOpen :: (front ++ [.symbol .roundClose]), by simp [same],
          .bracketed derived⟩
    · simp at read
  case h_8 => simp at read

/-- What was taken are the expressions between commas in front. -/
theorem items_of_readItems (sound : Sound inner) (tokens : List Token) :
    ∃ (items : List (Expression × List Token)) (trailing : List Token),
      tokens = commaSeparated (items.map Prod.snd) ++ trailing ++ (readItems inner tokens).rest ∧
        (∀ item ∈ items, Derives .expression item.1 item.2) ∧ Trails items trailing ∧
          (readItems inner tokens).value = items.map Prod.fst := by
  fun_induction readItems inner tokens with
  | case1 tokens => exact ⟨[], [], rfl, by simp, .inl rfl, rfl⟩
  | case2 tokens e others _ items _ within induction =>
      obtain ⟨front, same, derived⟩ := sound _ _ within
      simp only at same derived
      obtain ⟨parts, trailing, split, each, trails, values⟩ := induction
      cases parts with
      | nil =>
          have none : trailing = [] := by
            rcases trails with none | ⟨some, _⟩
            · exact none
            · exact absurd rfl some
          rw [none] at split
          refine ⟨[(e, front)], [.symbol .comma], ?_, by simpa using derived,
            .inr ⟨by simp, rfl⟩, by simp [items, values]⟩
          simpa [same, commaSeparated, items] using split
      | cons second rest =>
          refine ⟨(e, front) :: second :: rest, trailing, ?_, ?_, ?_, by simp [items, values]⟩
          · calc tokens = front ++ .symbol .comma :: others := same
              _ = front ++ .symbol .comma :: (commaSeparated ((second :: rest).map Prod.snd) ++
                    trailing ++ items.rest) := congrArg (front ++ .symbol .comma :: ·) split
              _ = _ := by simp [commaSeparated]
          · intro item member
            rcases List.mem_cons.mp member with rfl | later
            · exact derived
            · exact each item later
          · exact trails.imp id (fun comma => ⟨by simp, comma.2⟩)
  | case3 tokens e rest _ _ _ within =>
      obtain ⟨front, same, derived⟩ := sound _ _ within
      exact ⟨[(e, front)], [], by simpa [commaSeparated] using same, by simpa using derived,
        .inl rfl, rfl⟩

theorem spells_of_readSuffix (sound : Sound inner) {target : Expression} {front rest : List Token}
    (derived : Derives .access target front) {taken : Taken Suffix rest.length}
    (read : readSuffix inner rest = some taken) :
    ∃ next, rest = next ++ taken.rest ∧
      Derives .access (taken.value.onto target) (front ++ next) := by
  unfold readSuffix at read
  split at read
  case h_1 name rest =>
    cases read
    exact ⟨[.symbol .dot, .identifier name], rfl, .member name derived⟩
  case h_2 rest =>
    split at read
    · next position after shorter within =>
        cases read
        obtain ⟨inside, same, position⟩ := sound _ _ within
        simp only at same position
        refine ⟨.symbol .squareOpen :: (inside ++ [.symbol .squareClose]), by simp [same], ?_⟩
        exact .index derived position
    · simp at read
  case h_3 rest =>
    obtain ⟨items, trailing, split, each, trails, values⟩ := items_of_readItems sound rest
    split at read
    · next arguments after shorter within =>
        cases read
        rw [within] at split values
        simp only at split values
        refine ⟨.symbol .roundOpen ::
          (commaSeparated (items.map Prod.snd) ++ trailing ++ [.symbol .roundClose]), ?_, ?_⟩
        · simpa using split
        · simp only [Suffix.onto]
          rw [values]
          exact .call derived each trails
    · simp at read
  case h_4 => simp at read

theorem spells_of_readSuffixes (sound : Sound inner) (target : Expression) (rest : List Token)
    {front : List Token} (derived : Derives .access target front) :
    ∃ next, rest = next ++ (readSuffixes inner target rest).rest ∧
      Derives .access (readSuffixes inner target rest).value (front ++ next) := by
  fun_induction readSuffixes inner target rest generalizing front with
  | case1 target rest suffix after shorter read induction =>
      obtain ⟨next, same, longer⟩ := spells_of_readSuffix sound derived read
      obtain ⟨others, split, whole⟩ := induction longer
      simp only at same
      refine ⟨next ++ others, ?_, by simpa [List.append_assoc] using whole⟩
      rw [List.append_assoc]
      exact same.trans (congrArg (next ++ ·) split)
  | case2 target rest => exact ⟨[], rfl, by simpa using derived⟩

theorem spells_of_readAccess (sound : Sound inner) {taken : Taken Expression tokens.length}
    (read : readAccess inner tokens = some taken) : Spells .access tokens taken := by
  unfold readAccess at read
  split at read
  · next atom rest shorter within =>
      cases read
      obtain ⟨front, same, derived⟩ := spells_of_readAtom sound within
      obtain ⟨next, split, whole⟩ := spells_of_readSuffixes sound atom rest (.bare derived)
      simp only at same
      refine ⟨front ++ next, ?_, whole⟩
      rw [List.append_assoc]
      exact same.trans (congrArg (front ++ ·) split)
  · simp at read

/-- Reading an operation in any of fewer tokens takes one that is as tight as
told, and ends before every operator that it could have taken. -/
def EndsBelow (inner : Reader Expression) (bound : Nat) : Prop :=
  ∀ tokens : List Token, tokens.length < bound → ∀ least ≤ unaryStrength, ∀ taken,
    readOperation inner least tokens = some taken →
      Spells (.ofStrength least) tokens taken ∧ Stuck inner least taken.rest

theorem spells_of_readUnary (below : EndsBelow inner tokens.length)
    {taken : Taken Expression tokens.length} (read : readUnary inner tokens = some taken) :
    Spells .unary tokens taken := by
  unfold readUnary at read
  split at read
  · next mark rest =>
      split at read
      · next operator known =>
          split at read
          · next operand after shorter within =>
              cases read
              obtain ⟨⟨front, same, derived⟩, -⟩ := below rest (by simp) _ (by decide) _ within
              exact ⟨.symbol mark :: front, by simpa using same,
                .marked (UnaryOperator.mem_marks_iff.mpr known) derived⟩
          · simp at read
      · simp at read
  · simp at read

theorem readJoined_of_stuck {least : Nat} {rest : List Token} (stuck : Stuck inner least rest)
    (left : Expression) :
    readJoined inner least left rest = ⟨left, rest, Nat.lt_succ_self _⟩ := by
  unfold readJoined
  split
  · next mark tail =>
      split
      · next connective found =>
          obtain ⟨known, strong⟩ := Option.filter_eq_some_iff.mp found
          rw [stuck mark tail connective rfl known (by simpa using strong)]
      · rfl
  · rfl

theorem readJoined_of_taken {least : Nat} {mark : Symbol} {connective : Connective}
    {tail : List Token} {taken : Taken Expression tail.length}
    (known : Connective.ofSymbol? mark = some connective) (strong : least ≤ connective.strength)
    (read : readOperation inner (connective.strength + 1) tail = some taken) (left : Expression) :
    (readJoined inner least left (.symbol mark :: tail)).pair =
      (readJoined inner least (connective.join left taken.value) taken.rest).pair := by
  have found : (Connective.ofSymbol? mark).filter
      (fun connective => decide (least ≤ connective.strength)) = some connective := by
    simp [known, strong]
  rw [readJoined]
  simp only [found, read, Taken.pair_within]

/-- An operation ends at an operator, or goes on with a right operand. -/
theorem stuck_or_taken (inner : Reader Expression) (least : Nat) (rest : List Token) :
    Stuck inner least rest ∨
      ∃ mark tail connective taken, rest = .symbol mark :: tail ∧
        Connective.ofSymbol? mark = some connective ∧ least ≤ connective.strength ∧
          readOperation inner (connective.strength + 1) tail = some taken := by
  by_contra neither
  rw [not_or] at neither
  apply neither.1
  intro mark tail connective same known strong
  cases read : readOperation inner (connective.strength + 1) tail with
  | none => rfl
  | some taken => exact absurd ⟨mark, tail, connective, taken, same, known, strong, read⟩ neither.2

/-- An operator that the left side is too weak for would have been taken by its
last operand. So those that are taken fit the left side. -/
theorem spells_of_readJoined {bound least level : Nat} (below : EndsBelow inner bound)
    (left : Expression) (rest : List Token) (inside : rest.length ≤ bound) {front : List Token}
    (tight : least ≤ level) (derived : Derives (.ofStrength level) left front)
    (stuck : Stuck inner (level + 1) rest) :
    ∃ next, rest = next ++ (readJoined inner least left rest).rest ∧
      Derives (.ofStrength least) (readJoined inner least left rest).value (front ++ next) ∧
        Stuck inner least (readJoined inner least left rest).rest := by
  rcases stuck_or_taken inner least rest with ended | ⟨mark, tail, connective, taken, same, known,
    strong, read⟩
  · rw [readJoined_of_stuck ended left]
    exact ⟨[], rfl, by simpa using derived.loosen_le tight, ended⟩
  · have fits : connective.strength ≤ level := by
      by_contra tooStrong
      rw [stuck mark tail connective same known (by omega)] at read
      simp at read
    obtain ⟨layer, layered, listed⟩ := Connective.mem_operators known
    have shorter : taken.rest.length < tail.length := taken.shorter
    have step := readJoined_of_taken known strong read left
    have short : tail.length < bound := by
      rw [same, List.length_cons] at inside
      omega
    obtain ⟨⟨second, split, right⟩, stuckRight⟩ :=
      below tail short _ (by have := connective.strength_le; simp only [unaryStrength]; omega) _ read
    rw [← layered, Category.ofStrength_layer_succ] at right
    have joined : Derives (.ofStrength connective.strength) (connective.join left taken.value)
        (front ++ .symbol mark :: second) := by
      have before := derived.loosen_le fits
      rw [← layered, Category.ofStrength_layer] at before ⊢
      exact .joined layer listed before right
    obtain ⟨next, following, whole, final⟩ := spells_of_readJoined below
      (connective.join left taken.value) taken.rest (by omega) strong joined stuckRight
    subst same
    have values : (readJoined inner least left (.symbol mark :: tail)).value =
        (readJoined inner least (connective.join left taken.value) taken.rest).value :=
      congrArg Prod.fst step
    have rests : (readJoined inner least left (.symbol mark :: tail)).rest =
        (readJoined inner least (connective.join left taken.value) taken.rest).rest :=
      congrArg Prod.snd step
    rw [values, rests]
    refine ⟨.symbol mark :: (second ++ next), ?_, by simpa using whole, final⟩
    calc Token.symbol mark :: tail
        = .symbol mark :: (second ++ taken.rest) := congrArg (Token.symbol mark :: ·) split
      _ = .symbol mark :: (second ++ (next ++ _)) :=
        congrArg (fun tokens => Token.symbol mark :: (second ++ tokens)) following
      _ = _ := by simp
termination_by rest.length
decreasing_by
  subst same
  rw [List.length_cons]
  omega

theorem spells_of_readOperation (sound : Sound inner) (bound : Nat) : EndsBelow inner bound := by
  induction bound with
  | zero => exact fun tokens short => absurd short (Nat.not_lt_zero _)
  | succ bound below =>
      intro tokens short least weak taken read
      have inside : EndsBelow inner tokens.length :=
        fun others shorter => below others (by omega)
      unfold readOperation at read
      split at read
      · next operand rest shorter found =>
          cases read
          obtain ⟨front, same, derived⟩ : Spells .unary tokens ⟨operand, rest, shorter⟩ := by
            rcases Option.or_eq_some_iff.mp found with unary | ⟨-, access⟩
            · exact spells_of_readUnary inside unary
            · obtain ⟨front, same, derived⟩ := spells_of_readAccess sound access
              exact ⟨front, same, .unmarked derived⟩
          have free : Stuck inner (unaryStrength + 1) rest := by
            intro mark tail connective _ _ strong
            have weaker := connective.strength_le
            simp only [unaryStrength] at strong
            omega
          obtain ⟨next, split, whole, stuck⟩ :=
            spells_of_readJoined inside operand rest (Nat.le_of_lt shorter) weak derived free
          refine ⟨⟨front ++ next, ?_, whole⟩, stuck⟩
          rw [List.append_assoc]
          exact same.trans (congrArg (front ++ ·) split)
      · simp at read

theorem spells_of_readBranches (sound : Sound inner) {condition : Expression} {front rest : List Token}
    (derived : Derives (.chain .or) condition front)
    {taken : Taken (Expression × Expression) rest.length}
    (read : readBranches inner rest = some taken) :
    ∃ next, rest = next ++ taken.rest ∧
      Derives .expression (.conditional condition taken.value.1 taken.value.2) (front ++ next) := by
  unfold readBranches at read
  split at read
  · split at read
    · next consequent others shorter within =>
        split at read
        · next alternative after shorter' within' =>
            cases read
            obtain ⟨second, same, positive⟩ := sound _ _ within
            obtain ⟨third, same', negative⟩ := sound _ _ within'
            simp only at same same' positive negative
            refine ⟨.symbol .question :: (second ++ .symbol .colon :: third), ?_,
              .conditional derived positive negative⟩
            simp [same, same']
        · simp at read
    · simp at read
  · simp at read

theorem sound_readConditional (sound : Sound inner) : Sound (readConditional inner) := by
  intro tokens taken read
  unfold readConditional at read
  split at read
  · next condition rest shorter within =>
      obtain ⟨⟨front, same, derived⟩, -⟩ :=
        spells_of_readOperation sound _ tokens (Nat.lt_succ_self _) 0 (Nat.zero_le _) _ within
      simp only at same derived
      split at read
      · next consequent alternative after shorter' branches =>
          cases read
          obtain ⟨next, split, whole⟩ := spells_of_readBranches sound derived branches
          refine ⟨front ++ next, ?_, whole⟩
          rw [List.append_assoc]
          exact same.trans (congrArg (front ++ ·) split)
      · cases read
        exact ⟨front, same, .operation derived⟩
  · simp at read

/-- What is read, at any depth, is an expression by the grammar. -/
theorem sound_readNested (depth : Nat) : Sound (readNested depth) := by
  induction depth with
  | zero => exact fun _ _ read => by simp [readNested] at read
  | succ depth induction => exact sound_readConditional induction

theorem derives_of_ofTokens? {tokens : List Token} {e : Expression}
    (read : ofTokens? tokens = some e) : Derives .expression e tokens := by
  unfold ofTokens? at read
  split at read
  · next within =>
      cases read
      obtain ⟨front, same, derived⟩ := sound_readNested _ _ _ within
      simp only [List.append_nil] at same
      rwa [same]
  · simp at read

end Expression

end ReactiveView
