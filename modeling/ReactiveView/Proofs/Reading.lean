import ReactiveView.Reactive.Evaluation

/-!
# What an evaluation takes from the data

The evaluation of an expression that calls no method is a function of the data:
an account of everything that it learns, in order, and of its outcome. A second
store that gives the same answers to everything in the account has the same
account.
-/

namespace ReactiveView

set_option autoImplicit false

/-- One thing that is learnt from the data. -/
inductive Glimpse where
  /-- What a slot holds, if it is there. Only this is tracked. -/
  | slot (place : Place)
  | presence (place : Place)
  | length (list : ListId)
  | text (value : Value)

structure Account (α : Type) where
  glimpses : List Glimpse
  outcome : Except Error α

/-- A computation that only looks at the data. -/
def Reading (α : Type) : Type := Store → Account α

namespace Reading

variable {α β : Type}

def pure (value : α) : Reading α := fun _ => ⟨[], .ok value⟩

def fail (error : Error) : Reading α := fun _ => ⟨[], .error error⟩

def bind (first : Reading α) (second : α → Reading β) : Reading β := fun store =>
  match (first store).outcome with
  | .ok value =>
      ⟨(first store).glimpses ++ (second value store).glimpses, (second value store).outcome⟩
  | .error error => ⟨(first store).glimpses, .error error⟩

instance : Monad Reading where
  pure := pure
  bind := bind

/-- What is computed from the data by way of the given glimpses. -/
def consult (glimpses : List Glimpse) (compute : Store → Except Error α) : Reading α :=
  fun store => ⟨glimpses, compute store⟩

def slot (place : Place) : Reading (Option Value) :=
  consult [.slot place] (fun store => .ok (store.peek place))

def text (value : Value) : Reading String :=
  consult [.text value] (fun store => .ok (store.text value))

end Reading

namespace Builtin

def glimpses : Builtin → Option Value → List Glimpse
  | string, some argument => [.text argument]
  | _, _ => []

end Builtin

namespace Operation

/-- An operand without a numeric reading is rendered in the error. -/
def numericGlimpses (operand : Value) : List Glimpse :=
  if operand.number?.isSome then [] else [.text operand]

def arithmeticGlimpses (left right : Value) : List Glimpse :=
  if left.number?.isSome then numericGlimpses right else [.text left]

def relationGlimpses : Value → Value → List Glimpse
  | .text _, .text _ => []
  | left, right => arithmeticGlimpses left right

def binaryGlimpses (operator : BinaryOperator) (left right : Value) : List Glimpse :=
  match operator with
  | .add =>
      if isTextual left || isTextual right then [.text left, .text right]
      else arithmeticGlimpses left right
  | .subtract | .multiply | .divide | .remainder => arithmeticGlimpses left right
  | .less | .lessOrEqual | .greater | .greaterOrEqual => relationGlimpses left right
  | .equal | .notEqual | .strictEqual | .strictNotEqual => []

def unaryGlimpses (operator : UnaryOperator) (operand : Value) : List Glimpse :=
  match operator with
  | .not => []
  | .negate | .plus => numericGlimpses operand

end Operation

namespace Access

def memberGlimpses : Value → List Glimpse
  | .list list => [.length list]
  | _ => []

/-- An index of anything but a list or a text is rendered. -/
def elementGlimpses (target index : Value) : List Glimpse :=
  match target with
  | .list _ | .text _ => []
  | _ => [.text index]

end Access

namespace Reading

variable {κ : Type}

def access : Access → Reading Value
  | .value value => pure value
  | .slot place => do
      let found ← slot place
      pure (found.getD .null)

def name (context : Context κ) (name : String) : Reading Value := do
  match ← slot (.field context.data name) with
  | some value => pure value
  | none =>
      if context.methods.contains name || (Builtin.ofName? name).isSome then
        fail (.type (.functionAsValue name))
      else fail (.unknownIdentifier name)

def call (context : Context κ) (name : String) (arguments : List Value) : Reading Value := do
  let field ← consult [.presence (.field context.data name)]
    (fun store => .ok (store.slot? (.field context.data name)).isSome)
  if field then fail (.type (.callOfField name))
  else
    match Builtin.ofName? name with
    | some builtin =>
        consult (builtin.glimpses arguments.head?)
          (fun store => .ok (builtin.apply store arguments.head?))
    | none => fail (.unknownMethod name)

end Reading

namespace Expression

variable {κ : Type}

/-- No name that the expression calls is a method. What is no name is never called. -/
def callsNone (methods : Dictionary κ) : Expression → Bool
  | .literal _ => true
  | .identifier _ => true
  | .member target _ => target.callsNone methods
  | .index target position => target.callsNone methods && position.callsNone methods
  | .call (.identifier name) arguments => !methods.contains name && allCallNone arguments
  | .call _ _ => true
  | .unary _ operand => operand.callsNone methods
  | .binary _ left right => left.callsNone methods && right.callsNone methods
  | .logical _ left right => left.callsNone methods && right.callsNone methods
  | .conditional condition consequent alternative =>
      condition.callsNone methods && consequent.callsNone methods &&
        alternative.callsNone methods
where
  allCallNone : List Expression → Bool
    | [] => true
    | first :: rest => first.callsNone methods && allCallNone rest

def reading (context : Context κ) : Expression → Reading Value
  | .literal constant => Reading.pure constant.value
  | .identifier name => Reading.name context name
  | .member target name => do
      let target ← target.reading context
      let access ← Reading.consult (Access.memberGlimpses target)
        (fun store => Access.member store target name)
      Reading.access access
  | .index target position => do
      let target ← target.reading context
      let index ← position.reading context
      let access ← Reading.consult (Access.elementGlimpses target index)
        (fun store => Access.element store target index)
      Reading.access access
  | .call (.identifier name) arguments => do
      let arguments ← readings arguments
      Reading.call context name arguments
  | .call callee _ => Reading.fail (.type (.callOfExpression callee.shown))
  | .unary operator operand => do
      let operand ← operand.reading context
      Reading.consult (Operation.unaryGlimpses operator operand)
        (fun store => Operation.unary store operator operand)
  | .binary operator left right => do
      let left ← left.reading context
      let right ← right.reading context
      Reading.consult (Operation.binaryGlimpses operator left right)
        (fun store => Operation.binary store operator left right)
  | .logical .and left right => do
      let left ← left.reading context
      if left.isTruthy then right.reading context else pure left
  | .logical .or left right => do
      let left ← left.reading context
      if left.isTruthy then pure left else right.reading context
  | .conditional condition consequent alternative => do
      let condition ← condition.reading context
      if condition.isTruthy then consequent.reading context else alternative.reading context
where
  readings : List Expression → Reading (List Value)
    | [] => pure []
    | first :: rest => do
        let value ← first.reading context
        let values ← readings rest
        pure (value :: values)

end Expression

namespace Template

variable {κ : Type}

def partReadings (context : Context κ) : List Part → Reading String
  | [] => pure ""
  | .text content :: rest => do
      let others ← partReadings context rest
      pure (content ++ others)
  | .expression body :: rest => do
      let value ← body.reading context
      let text ← Reading.text value
      let others ← partReadings context rest
      pure (text ++ others)

end Template

namespace Formula

variable {κ : Type}

def callsNone (methods : Dictionary κ) : Formula → Bool
  | .expression body => body.callsNone methods
  | .template body => body.parts.all (fun part =>
      match part with
      | .text _ => true
      | .expression body => body.callsNone methods)

def reading (context : Context κ) : Formula → Reading Value
  | .expression body => body.reading context
  | .template body => do
      let text ← Template.partReadings context body.parts
      pure (.text text)

end Formula

namespace Store

def Agrees (store other : Store) : Glimpse → Prop
  | .slot place => other.peek place = store.peek place
  | .presence place => (other.slot? place).isSome = (store.slot? place).isSome
  | .length list => (other.items list).length = (store.items list).length
  | .text value => other.text value = store.text value

def AgreesOn (store other : Store) (glimpses : List Glimpse) : Prop :=
  ∀ glimpse ∈ glimpses, store.Agrees other glimpse

theorem agreesOn_append {store other : Store} {left right : List Glimpse} :
    store.AgreesOn other (left ++ right) ↔
      store.AgreesOn other left ∧ store.AgreesOn other right := by
  simp only [AgreesOn, List.mem_append, or_imp, forall_and]

end Store

namespace Reading

variable {α β : Type}

/-- Whatever gives the same answers to all in an account gives the same account. -/
def Determined (reading : Reading α) : Prop :=
  ∀ store other, store.AgreesOn other (reading store).glimpses → reading other = reading store

theorem determined_pure (value : α) : (pure value).Determined := fun _ _ _ => rfl

theorem determined_fail (error : Error) : (fail error : Reading α).Determined :=
  fun _ _ _ => rfl

theorem bind_of_ok {first : Reading α} {store : Store} {value : α}
    (ended : (first store).outcome = .ok value) (second : α → Reading β) :
    first.bind second store =
      ⟨(first store).glimpses ++ (second value store).glimpses,
        (second value store).outcome⟩ := by
  simp only [bind, ended]

theorem bind_of_error {first : Reading α} {store : Store} {error : Error}
    (ended : (first store).outcome = .error error) (second : α → Reading β) :
    first.bind second store = ⟨(first store).glimpses, .error error⟩ := by
  simp only [bind, ended]

theorem determined_bind {first : Reading α} {second : α → Reading β}
    (left : first.Determined) (right : ∀ value, (second value).Determined) :
    (first.bind second).Determined := by
  intro store other agrees
  cases ended : (first store).outcome with
  | error error =>
      rw [bind_of_error ended] at agrees ⊢
      have same := left store other agrees
      rw [bind_of_error (by rw [same, ended]), same]
  | ok value =>
      rw [bind_of_ok ended] at agrees ⊢
      obtain ⟨before, after⟩ := Store.agreesOn_append.mp agrees
      have same := left store other before
      rw [bind_of_ok (by rw [same, ended]), same, right value store other after]

theorem determined_consult {glimpses : List Glimpse} {compute : Store → Except Error α}
    (same : ∀ store other : Store, store.AgreesOn other glimpses →
      compute other = compute store) :
    (consult glimpses compute).Determined := by
  intro store other agrees
  simp only [consult, same store other agrees]

theorem determined_slot (place : Place) : (slot place).Determined := by
  apply determined_consult
  intro store other agrees
  have same : other.peek place = store.peek place := agrees _ (List.mem_singleton_self _)
  rw [same]

end Reading

theorem Builtin.apply_agrees {builtin : Builtin} {argument : Option Value} {store other : Store}
    (agrees : store.AgreesOn other (builtin.glimpses argument)) :
    builtin.apply other argument = builtin.apply store argument := by
  cases builtin with
  | string =>
      cases argument with
      | none => rfl
      | some value =>
          have same : other.text value = store.text value :=
            agrees _ (List.mem_singleton_self _)
          simp only [apply, Option.map_some, same]
  | number => cases argument <;> rfl
  | boolean => rfl

namespace Operation

variable {store other : Store}

theorem numeric_agrees {operand : Value} (operation : String)
    (agrees : store.AgreesOn other (numericGlimpses operand)) :
    numeric other operation operand = numeric store operation operand := by
  unfold numeric
  cases reads : operand.number? with
  | some number => rfl
  | none =>
      have same : other.text operand = store.text operand :=
        agrees (.text operand) (by simp [numericGlimpses, reads])
      simp only [same]

/-- If the left operand has no numeric reading, the right one does not matter. -/
theorem operands_agree {left right : Value} (operation : String)
    (agrees : store.AgreesOn other (arithmeticGlimpses left right)) :
    numeric other operation left = numeric store operation left ∧
      ((∃ number, numeric store operation left = .ok number) →
        numeric other operation right = numeric store operation right) := by
  cases reads : left.number? with
  | some number =>
      constructor
      · simp only [numeric, reads]
      · intro _
        apply numeric_agrees
        simpa only [arithmeticGlimpses, reads, Option.isSome_some, if_true] using agrees
  | none =>
      constructor
      · apply numeric_agrees
        simpa [arithmeticGlimpses, numericGlimpses, reads] using agrees
      · rintro ⟨number, ended⟩
        simp [numeric, reads] at ended

theorem arithmetic_agrees {left right : Value} (operator : BinaryOperator)
    (compute : Float → Float → Float)
    (agrees : store.AgreesOn other (arithmeticGlimpses left right)) :
    arithmetic other operator compute left right =
      arithmetic store operator compute left right := by
  obtain ⟨first, second⟩ := operands_agree operator.symbol agrees
  simp only [arithmetic, first]
  cases ended : numeric store operator.symbol left with
  | error error => rfl
  | ok number => simp only [second ⟨number, ended⟩]

theorem compare_agrees {left right : Value} (operator : BinaryOperator)
    (agrees : store.AgreesOn other (relationGlimpses left right)) :
    compare other operator left right = compare store operator left right := by
  by_cases texts : ∃ first second, left = .text first ∧ right = .text second
  · obtain ⟨first, second, rfl, rfl⟩ := texts
    rfl
  · have numbers : relationGlimpses left right = arithmeticGlimpses left right := by
      cases left <;> cases right <;> simp_all [relationGlimpses]
    rw [numbers] at agrees
    obtain ⟨first, second⟩ := operands_agree operator.symbol agrees
    have opened (data : Store) : compare data operator left right =
        (numeric data operator.symbol left).bind (fun left =>
          (numeric data operator.symbol right).bind (fun right =>
            .ok (Value.ordering left right))) := by
      unfold compare
      split
      · exact absurd ⟨_, _, rfl, rfl⟩ texts
      · cases numeric data operator.symbol left with
        | error error => rfl
        | ok number => cases numeric data operator.symbol right <;> rfl
    rw [opened, opened, first]
    cases ended : numeric store operator.symbol left with
    | error error => rfl
    | ok number => simp only [second ⟨number, ended⟩]

theorem relation_agrees {left right : Value} (operator : BinaryOperator)
    (accepted : List Ordering) (agrees : store.AgreesOn other (relationGlimpses left right)) :
    relation other operator accepted left right = relation store operator accepted left right := by
  simp only [relation, compare_agrees operator agrees]

theorem binary_agrees {operator : BinaryOperator} {left right : Value}
    (agrees : store.AgreesOn other (binaryGlimpses operator left right)) :
    binary other operator left right = binary store operator left right := by
  cases operator with
  | add =>
      simp only [binary, binaryGlimpses] at agrees ⊢
      split at agrees
      · next textual =>
          have first : other.text left = store.text left := agrees (.text left) (by simp)
          have second : other.text right = store.text right := agrees (.text right) (by simp)
          simp only [textual, if_true, first, second]
      · next numbers => rw [if_neg numbers, if_neg numbers, arithmetic_agrees .add _ agrees]
  | subtract => exact arithmetic_agrees .subtract _ agrees
  | multiply => exact arithmetic_agrees .multiply _ agrees
  | divide => exact arithmetic_agrees .divide _ agrees
  | remainder => exact arithmetic_agrees .remainder _ agrees
  | less => exact relation_agrees .less _ agrees
  | lessOrEqual => exact relation_agrees .lessOrEqual _ agrees
  | greater => exact relation_agrees .greater _ agrees
  | greaterOrEqual => exact relation_agrees .greaterOrEqual _ agrees
  | equal => rfl
  | notEqual => rfl
  | strictEqual => rfl
  | strictNotEqual => rfl

theorem unary_agrees {operator : UnaryOperator} {operand : Value}
    (agrees : store.AgreesOn other (unaryGlimpses operator operand)) :
    unary other operator operand = unary store operator operand := by
  cases operator with
  | not => rfl
  | negate => simp only [unary, numeric_agrees "negate" agrees]
  | plus => simp only [unary, numeric_agrees "convert to a number" agrees]

end Operation

namespace Access

variable {store other : Store}

theorem member_agrees {target : Value} (name : String)
    (agrees : store.AgreesOn other (memberGlimpses target)) :
    member other target name = member store target name := by
  cases target with
  | list list =>
      have same : (other.items list).length = (store.items list).length :=
        agrees (.length list) (List.mem_singleton_self _)
      simp only [member, same]
  | _ => rfl

theorem element_agrees {target index : Value}
    (agrees : store.AgreesOn other (elementGlimpses target index)) :
    element other target index = element store target index := by
  cases target with
  | list list => rfl
  | text text => rfl
  | null | bool _ | number _ | record _ =>
      have same : other.text index = store.text index :=
        agrees (.text index) (List.mem_singleton_self _)
      simp only [element, same]
      rfl

end Access

end ReactiveView
