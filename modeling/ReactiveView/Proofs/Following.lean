import ReactiveView.Proofs.Reading
import ReactiveView.Proofs.Rendering

/-!
# Evaluation follows its account

An evaluation in the engine of an expression that calls no method has the outcome
of its account, tracks the slots of its account in their order, and does nothing
else.
-/

namespace ReactiveView

set_option autoImplicit false

namespace Store

/-- The same slots in the same containers; the registries may have other subscribers. -/
def SameData (store other : Store) : Prop :=
  other.records = store.records ∧ other.lists = store.lists

namespace SameData

variable {store other third : Store}

theorem refl (store : Store) : store.SameData store := ⟨rfl, rfl⟩

theorem trans (first : store.SameData other) (second : other.SameData third) :
    store.SameData third := ⟨second.1.trans first.1, second.2.trans first.2⟩

theorem fields (same : store.SameData other) (record : RecordId) :
    other.fields record = store.fields record := by
  simp only [Store.fields, same.1]

theorem items (same : store.SameData other) (list : ListId) :
    other.items list = store.items list := by
  simp only [Store.items, same.2]

theorem slot? (same : store.SameData other) (place : Place) :
    other.slot? place = store.slot? place := by
  cases place with
  | field record key => simp only [Store.slot?, same.fields]
  | item list index => simp only [Store.slot?, same.items]

theorem text (same : store.SameData other) (value : Value) :
    other.text value = store.text value :=
  text_agrees fun list _ => by rw [same.items]

theorem agreesOn (same : store.SameData other) (glimpses : List Glimpse) :
    store.AgreesOn other glimpses := by
  intro glimpse _
  cases glimpse with
  | slot place => simp only [Agrees, peek, same.slot?]
  | presence place => simp only [Agrees, same.slot?]
  | length list => simp only [Agrees, same.items]
  | text value => exact same.text value

end SameData

theorem sameData_register (store : Store) (registry : RegistryId) (subscriber : SubscriberId) :
    store.SameData (store.register registry subscriber) := by
  unfold register
  split <;> exact ⟨rfl, rfl⟩

end Store

theorem Reading.Determined.sameData {α : Type} {reading : Reading α} {store other : Store}
    (determined : reading.Determined) (same : store.SameData other) :
    reading other = reading store :=
  determined store other (same.agreesOn _)

namespace State

variable {κ σ : Type}

/-- The observer, if there is one, tracks a slot. -/
def note (state : State κ σ) : Glimpse → State κ σ
  | .slot place => (state.read place).2
  | _ => state

def noteAll (state : State κ σ) (glimpses : List Glimpse) : State κ σ :=
  glimpses.foldl note state

theorem noteAll_append (state : State κ σ) (left right : List Glimpse) :
    state.noteAll (left ++ right) = (state.noteAll left).noteAll right :=
  List.foldl_append

theorem sameData_track (registry : RegistryId) (state : State κ σ) :
    state.store.SameData (state.track registry).store := by
  unfold track
  split
  · exact Store.SameData.refl _
  · split
    · exact Store.SameData.refl _
    · exact Store.sameData_register _ _ _

theorem sameData_note (state : State κ σ) (glimpse : Glimpse) :
    state.store.SameData (state.note glimpse).store := by
  cases glimpse with
  | slot place =>
      simp only [note, read]
      split
      · exact Store.SameData.refl _
      · exact Store.SameData.refl _
      · exact sameData_track _ _
  | _ => exact Store.SameData.refl _

theorem sameData_noteAll (state : State κ σ) (glimpses : List Glimpse) :
    state.store.SameData (state.noteAll glimpses).store := by
  induction glimpses generalizing state with
  | nil => exact Store.SameData.refl _
  | cons glimpse rest induction => exact (sameData_note state glimpse).trans (induction _)

end State

namespace Engine

variable {κ σ α β : Type}

/-- A computation that does nothing but look at the data, as a reading does. -/
structure Follows (body : Engine κ σ α) (reading : Reading α) : Prop where
  determined : reading.Determined
  ends : ∀ state, body state =
    .ended (reading state.store).outcome (state.noteAll (reading state.store).glimpses)

theorem follows_pure (value : α) : (pure value : Engine κ σ α).Follows (Reading.pure value) :=
  ⟨Reading.determined_pure value, fun _ => rfl⟩

theorem follows_fail (error : Error) : (fail error : Engine κ σ α).Follows (Reading.fail error) :=
  ⟨Reading.determined_fail error, fun _ => rfl⟩

theorem follows_bind {first : Engine κ σ α} {second : α → Engine κ σ β}
    {firstReading : Reading α} {secondReading : α → Reading β}
    (left : first.Follows firstReading)
    (right : ∀ value, (second value).Follows (secondReading value)) :
    (first >>= second).Follows (firstReading >>= secondReading) := by
  refine ⟨Reading.determined_bind left.determined (fun value => (right value).determined), ?_⟩
  intro state
  have start := left.ends state
  change (first >>= second) state = .ended (firstReading.bind secondReading state.store).outcome
    (state.noteAll (firstReading.bind secondReading state.store).glimpses)
  cases ended : (firstReading state.store).outcome with
  | error error =>
      rw [ended] at start
      rw [bind_of_error start, Reading.bind_of_error ended]
  | ok value =>
      rw [ended] at start
      rw [bind_of_ok start, Reading.bind_of_ok ended, State.noteAll_append, (right value).ends]
      -- noting slots leaves the data alone, so the second account is that of the first state
      have same := (right value).determined.sameData
        (state.sameData_noteAll (firstReading state.store).glimpses)
      rw [same]

theorem follows_consult {glimpses : List Glimpse} {compute : Store → Except Error α}
    (quiet : ∀ (state : State κ σ), state.noteAll glimpses = state)
    (same : ∀ store other : Store, store.AgreesOn other glimpses →
      compute other = compute store) :
    (look State.store >>= fun store => ofExcept (compute store) : Engine κ σ α).Follows
      (Reading.consult glimpses compute) := by
  refine ⟨Reading.determined_consult same, ?_⟩
  intro state
  simp only [Reading.consult, quiet]
  rfl

theorem follows_slot (place : Place) :
    (transform (State.read place) : Engine κ σ (Option Value)).Follows (Reading.slot place) := by
  refine ⟨Reading.determined_slot place, ?_⟩
  intro state
  have found : (state.read place).1 = state.store.peek place := by
    simp only [State.read, Store.peek]
    split <;> simp_all
  simp only [transform, Reading.slot, Reading.consult, found]
  rfl

theorem follows_access (target : Access) :
    (readAccess target : Engine κ σ Value).Follows (Reading.access target) := by
  cases target with
  | value value => exact follows_pure value
  | slot place => exact follows_bind (follows_slot place) (fun _ => follows_pure _)

theorem follows_callName (invoke : Invoke κ σ) {context : Context κ} {name : String}
    (absent : context.methods.contains name = false) (arguments : List Value) :
    (callName invoke context name arguments).Follows (Reading.call context name arguments) := by
  have determined : (Reading.call context name arguments).Determined := by
    apply Reading.determined_bind
    · apply Reading.determined_consult
      intro store other agrees
      have same : (other.slot? (.field context.data name)).isSome =
          (store.slot? (.field context.data name)).isSome :=
        agrees (.presence _) (List.mem_singleton_self _)
      rw [same]
    · intro field
      cases field with
      | true => exact Reading.determined_fail _
      | false =>
          simp only [Bool.false_eq_true, if_false]
          split
          · apply Reading.determined_consult
            intro store other agrees
            rw [Builtin.apply_agrees agrees]
          · exact Reading.determined_fail _
  refine ⟨determined, ?_⟩
  intro state
  have opened : callName invoke context name arguments state =
      (if (state.store.slot? (.field context.data name)).isSome then
        fail (.type (.callOfField name))
      else if context.methods.contains name then callMethod invoke context name arguments
      else (Builtin.ofName? name).elim (fail (.unknownMethod name))
        (fun builtin => pure (builtin.apply state.store arguments.head?))) state := by
    unfold callName
    cases Builtin.ofName? name <;> rfl
  have start : (Reading.consult [.presence (.field context.data name)]
      (fun store => .ok (store.slot? (.field context.data name)).isSome) state.store).outcome =
        .ok (state.store.slot? (.field context.data name)).isSome := rfl
  rw [opened, absent, Reading.call]
  change _ = Course.ended (Reading.bind _ _ state.store).outcome
    (state.noteAll (Reading.bind _ _ state.store).glimpses)
  rw [Reading.bind_of_ok start]
  cases (state.store.slot? (.field context.data name)).isSome with
  | true => rfl
  | false =>
      cases Builtin.ofName? name with
      | none => rfl
      | some builtin => cases builtin <;> cases arguments <;> rfl

theorem follows_readName (context : Context κ) (name : String) :
    (readName context name : Engine κ σ Value).Follows (Reading.name context name) := by
  apply follows_bind (follows_slot _)
  intro found
  cases found with
  | some value => exact follows_pure value
  | none =>
      simp only
      split
      · exact follows_fail _
      · exact follows_fail _

theorem noteAll_numericGlimpses (state : State κ σ) (operand : Value) :
    state.noteAll (Operation.numericGlimpses operand) = state := by
  unfold Operation.numericGlimpses
  split <;> rfl

theorem noteAll_arithmeticGlimpses (state : State κ σ) (left right : Value) :
    state.noteAll (Operation.arithmeticGlimpses left right) = state := by
  unfold Operation.arithmeticGlimpses
  split
  · exact noteAll_numericGlimpses state right
  · rfl

theorem noteAll_relationGlimpses (state : State κ σ) (left right : Value) :
    state.noteAll (Operation.relationGlimpses left right) = state := by
  unfold Operation.relationGlimpses
  split
  · rfl
  · exact noteAll_arithmeticGlimpses state _ _

theorem noteAll_binaryGlimpses (state : State κ σ) (operator : BinaryOperator)
    (left right : Value) :
    state.noteAll (Operation.binaryGlimpses operator left right) = state := by
  cases operator with
  | add =>
      simp only [Operation.binaryGlimpses]
      split
      · rfl
      · exact noteAll_arithmeticGlimpses state left right
  | subtract | multiply | divide | remainder => exact noteAll_arithmeticGlimpses state left right
  | less | lessOrEqual | greater | greaterOrEqual => exact noteAll_relationGlimpses state left right
  | equal | notEqual | strictEqual | strictNotEqual => rfl

theorem follows_unary (operator : UnaryOperator) (operand : Value) :
    (look State.store >>= fun store => ofExcept (Operation.unary store operator operand) :
      Engine κ σ Value).Follows
        (Reading.consult (Operation.unaryGlimpses operator operand)
          (fun store => Operation.unary store operator operand)) := by
  refine follows_consult ?_ (fun _ _ agrees => Operation.unary_agrees agrees)
  intro state
  cases operator with
  | not => rfl
  | negate | plus => exact noteAll_numericGlimpses state operand

theorem follows_binary (operator : BinaryOperator) (left right : Value) :
    (look State.store >>= fun store => ofExcept (Operation.binary store operator left right) :
      Engine κ σ Value).Follows
        (Reading.consult (Operation.binaryGlimpses operator left right)
          (fun store => Operation.binary store operator left right)) :=
  follows_consult (fun state => noteAll_binaryGlimpses state operator left right)
    (fun _ _ agrees => Operation.binary_agrees agrees)

theorem follows_member (target : Value) (name : String) :
    (look State.store >>= fun store => ofExcept (Access.member store target name) :
      Engine κ σ Access).Follows
        (Reading.consult (Access.memberGlimpses target)
          (fun store => Access.member store target name)) := by
  refine follows_consult ?_ (fun _ _ agrees => Access.member_agrees name agrees)
  intro state
  cases target <;> rfl

theorem follows_element (target index : Value) :
    (look State.store >>= fun store => ofExcept (Access.element store target index) :
      Engine κ σ Access).Follows
        (Reading.consult (Access.elementGlimpses target index)
          (fun store => Access.element store target index)) := by
  refine follows_consult ?_ (fun _ _ agrees => Access.element_agrees agrees)
  intro state
  cases target <;> rfl

mutual

theorem follows_evaluate (invoke : Invoke κ σ) (context : Context κ) (expression : Expression)
    (plain : expression.callsNone context.methods = true) :
    (evaluate invoke context expression).Follows (expression.reading context) := by
  cases expression with
  | literal literal => exact follows_pure _
  | identifier name => exact follows_readName context name
  | member target name =>
      apply follows_bind (follows_evaluate invoke context target plain)
      intro value
      exact follows_bind (follows_member value name) follows_access
  | index target position =>
      have both := Bool.and_eq_true_iff.mp plain
      apply follows_bind (follows_evaluate invoke context target both.1)
      intro value
      apply follows_bind (follows_evaluate invoke context position both.2)
      intro index
      exact follows_bind (follows_element value index) follows_access
  | call callee arguments =>
      cases callee with
      | identifier name =>
          have both := Bool.and_eq_true_iff.mp plain
          have absent : context.methods.contains name = false := by simpa using both.1
          apply follows_bind (follows_evaluateAll invoke context arguments both.2)
          exact follows_callName invoke absent
      | _ => exact follows_fail _
  | unary operator operand =>
      apply follows_bind (follows_evaluate invoke context operand plain)
      exact follows_unary operator
  | binary operator left right =>
      have both := Bool.and_eq_true_iff.mp plain
      apply follows_bind (follows_evaluate invoke context left both.1)
      intro first
      apply follows_bind (follows_evaluate invoke context right both.2)
      exact follows_binary operator first
  | logical operator left right =>
      have both := Bool.and_eq_true_iff.mp plain
      have second := follows_evaluate invoke context right both.2
      cases operator with
      | and =>
          apply follows_bind (follows_evaluate invoke context left both.1)
          intro first
          split
          · exact second
          · exact follows_pure first
      | or =>
          apply follows_bind (follows_evaluate invoke context left both.1)
          intro first
          split
          · exact follows_pure first
          · exact second
  | conditional condition consequent alternative =>
      have both := Bool.and_eq_true_iff.mp plain
      have first := Bool.and_eq_true_iff.mp both.1
      apply follows_bind (follows_evaluate invoke context condition first.1)
      intro value
      split
      · exact follows_evaluate invoke context consequent first.2
      · exact follows_evaluate invoke context alternative both.2

theorem follows_evaluateAll (invoke : Invoke κ σ) (context : Context κ)
    (expressions : List Expression)
    (plain : Expression.callsNone.allCallNone context.methods expressions = true) :
    (evaluate.evaluateAll invoke context expressions).Follows
      (Expression.reading.readings context expressions) := by
  cases expressions with
  | nil => exact follows_pure []
  | cons first rest =>
      have both := Bool.and_eq_true_iff.mp plain
      apply follows_bind (follows_evaluate invoke context first both.1)
      intro value
      apply follows_bind (follows_evaluateAll invoke context rest both.2)
      intro values
      exact follows_pure (value :: values)

end

theorem follows_evaluateParts (invoke : Invoke κ σ) (context : Context κ)
    (parts : List Template.Part)
    (plain : ∀ body, .expression body ∈ parts → body.callsNone context.methods = true) :
    (evaluateParts invoke context parts).Follows (Template.partReadings context parts) := by
  induction parts with
  | nil => exact follows_pure ""
  | cons part rest induction =>
      have others := induction (fun body member => plain body (List.mem_cons_of_mem _ member))
      cases part with
      | text content =>
          exact follows_bind others (fun text => follows_pure (content ++ text))
      | expression body =>
          apply follows_bind (follows_evaluate invoke context body (plain body List.mem_cons_self))
          intro value
          have shown : (look State.store >>= fun store => ofExcept (.ok (store.text value)) :
              Engine κ σ String).Follows (Reading.text value) :=
            follows_consult (fun _ => rfl)
              (fun store other agrees => congrArg Except.ok (agrees _ (List.mem_singleton_self _)))
          exact follows_bind shown
            (fun text => follows_bind others (fun others => follows_pure (text ++ others)))

/-- The engine evaluates a formula that calls no method as its account says. -/
theorem follows_evaluateFormula (invoke : Invoke κ σ) (context : Context κ) (formula : Formula)
    (plain : formula.callsNone context.methods = true) :
    (evaluateFormula invoke context formula).Follows (formula.reading context) := by
  cases formula with
  | expression body => exact follows_evaluate invoke context body plain
  | template body =>
      have each : ∀ expression, .expression expression ∈ body.parts →
          expression.callsNone context.methods = true := by
        intro expression member
        exact List.all_eq_true.mp plain _ member
      apply follows_bind (follows_evaluateParts invoke context body.parts each)
      intro text
      exact follows_pure (Value.text text)

end Engine

theorem Formula.determined_reading {κ : Type} (context : Context κ) (formula : Formula)
    (plain : formula.callsNone context.methods = true) :
    (formula.reading context).Determined := by
  -- which code methods stand for does not matter, since none is called
  have invoke : Invoke κ Unit := fun _ _ => Engine.fail .nestedEvaluation
  exact (Engine.follows_evaluateFormula invoke context formula plain).determined

end ReactiveView
