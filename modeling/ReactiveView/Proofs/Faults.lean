import ReactiveView.Proofs.Reading

/-!
# How evaluations fail

An evaluation that calls no method fails where a name stands for nothing, or where a value is
of the wrong kind. It reports nothing about sources, documents or other evaluations.
-/

namespace ReactiveView

set_option autoImplicit false

/-- An error about names or kinds of values. -/
def Error.isFault : Error → Bool
  | unknownIdentifier _ | unknownMethod _ | type _ => true
  | _ => false

/-- Where it fails, this is about names or kinds of values. -/
def Faulty {α : Type} (outcome : Except Error α) : Prop :=
  ∀ error, outcome = .error error → error.isFault = true

namespace Faulty

variable {α β : Type}

theorem ok (value : α) : Faulty (.ok value) := nofun

theorem error {error : Error} (fault : error.isFault = true) :
    Faulty (.error error : Except Error α) := by
  rintro _ ⟨⟩
  exact fault

theorem map {outcome : Except Error α} (faulty : Faulty outcome) (change : α → β) :
    Faulty (outcome.map change) := by
  cases outcome with
  | ok value => exact ok (change value)
  | error error => exact .error (faulty error rfl)

end Faulty

namespace Operation

variable (store : Store)

theorem faulty_numeric (operation : String) (operand : Value) :
    Faulty (numeric store operation operand) := by
  unfold numeric
  split
  · exact .ok _
  · exact .error rfl

theorem faulty_numerics {α : Type} (operation : String) (left right : Value)
    (compute : Float → Float → α) :
    Faulty (match numeric store operation left with
      | .error error => .error error
      | .ok left =>
          match numeric store operation right with
          | .error error => .error error
          | .ok right => .ok (compute left right)) := by
  split
  · next error failed => exact .error (faulty_numeric store operation left error failed)
  · split
    · next error failed => exact .error (faulty_numeric store operation right error failed)
    · exact .ok _

theorem faulty_relation (operator : BinaryOperator) (accepted : List Ordering)
    (left right : Value) : Faulty (relation store operator accepted left right) := by
  apply Faulty.map
  unfold compare
  split
  · exact .ok _
  · exact faulty_numerics store operator.symbol left right Value.ordering

theorem faulty_binary (operator : BinaryOperator) (left right : Value) :
    Faulty (binary store operator left right) := by
  cases operator with
  | add =>
      simp only [binary]
      split
      · exact .ok _
      · exact faulty_numerics store _ left right _
  | subtract | multiply | divide | remainder => exact faulty_numerics store _ left right _
  | less | lessOrEqual | greater | greaterOrEqual => exact faulty_relation store _ _ left right
  | equal | notEqual | strictEqual | strictNotEqual => exact .ok _

theorem faulty_unary (operator : UnaryOperator) (operand : Value) :
    Faulty (unary store operator operand) := by
  cases operator with
  | not => exact .ok _
  | negate | plus => exact (faulty_numeric store _ operand).map _

end Operation

namespace Access

theorem faulty_member (store : Store) (target : Value) (name : String) :
    Faulty (member store target name) := by
  unfold member
  split
  all_goals first | exact .ok _ | exact .error rfl

theorem faulty_element (store : Store) (target index : Value) :
    Faulty (element store target index) := by
  unfold element
  split
  · exact .ok _
  · exact .ok _
  · exact faulty_member store target _

end Access

namespace Reading

variable {α β κ : Type}

/-- On no data does it fail in another way. -/
def FaultsOnly (reading : Reading α) : Prop := ∀ store, Faulty (reading store).outcome

theorem faultsOnly_pure (value : α) : (pure value).FaultsOnly := fun _ => .ok value

theorem faultsOnly_fail {error : Error} (fault : error.isFault = true) :
    (fail error : Reading α).FaultsOnly := fun _ => .error fault

theorem faultsOnly_bind {first : Reading α} {second : α → Reading β} (left : first.FaultsOnly)
    (right : ∀ value, (second value).FaultsOnly) : (first >>= second).FaultsOnly := by
  intro store
  change Faulty (first.bind second store).outcome
  cases ended : (first store).outcome with
  | ok value =>
      rw [bind_of_ok ended]
      exact right value store
  | error error =>
      rw [bind_of_error ended]
      exact .error (left store error ended)

theorem faultsOnly_access (target : Access) : (access target).FaultsOnly := by
  cases target with
  | value value => exact faultsOnly_pure value
  | slot place =>
      exact faultsOnly_bind (fun store => .ok (store.peek place)) (fun _ => faultsOnly_pure _)

theorem faultsOnly_name (context : Context κ) (called : String) :
    (name context called).FaultsOnly := by
  apply faultsOnly_bind (fun store => .ok (store.peek _))
  intro found
  cases found with
  | some value => exact faultsOnly_pure value
  | none =>
      simp only
      split
      · exact faultsOnly_fail rfl
      · exact faultsOnly_fail rfl

theorem faultsOnly_call (context : Context κ) (name : String) (arguments : List Value) :
    (call context name arguments).FaultsOnly := by
  apply faultsOnly_bind (fun _ => .ok _)
  intro field
  cases field with
  | true => exact faultsOnly_fail rfl
  | false =>
      simp only [Bool.false_eq_true, if_false]
      split
      · exact fun _ => .ok _
      · exact faultsOnly_fail rfl

end Reading

open Reading

mutual

theorem Expression.faultsOnly_reading {κ : Type} (context : Context κ) (expression : Expression) :
    (expression.reading context).FaultsOnly := by
  cases expression with
  | literal constant => exact faultsOnly_pure _
  | identifier name => exact faultsOnly_name context name
  | member target name =>
      apply faultsOnly_bind (Expression.faultsOnly_reading context target)
      intro value
      exact faultsOnly_bind (fun store => Access.faulty_member store value name)
        faultsOnly_access
  | index target position =>
      apply faultsOnly_bind (Expression.faultsOnly_reading context target)
      intro value
      apply faultsOnly_bind (Expression.faultsOnly_reading context position)
      intro index
      exact faultsOnly_bind (fun store => Access.faulty_element store value index)
        faultsOnly_access
  | call callee arguments =>
      cases callee with
      | identifier name =>
          exact faultsOnly_bind (Expression.faultsOnly_readings context arguments)
            (faultsOnly_call context name)
      | _ => exact faultsOnly_fail rfl
  | unary operator operand =>
      apply faultsOnly_bind (Expression.faultsOnly_reading context operand)
      exact fun value store => Operation.faulty_unary store operator value
  | binary operator left right =>
      apply faultsOnly_bind (Expression.faultsOnly_reading context left)
      intro first
      apply faultsOnly_bind (Expression.faultsOnly_reading context right)
      exact fun second store => Operation.faulty_binary store operator first second
  | logical operator left right =>
      have others := Expression.faultsOnly_reading context right
      cases operator with
      | and =>
          apply faultsOnly_bind (Expression.faultsOnly_reading context left)
          intro first
          split
          · exact others
          · exact faultsOnly_pure first
      | or =>
          apply faultsOnly_bind (Expression.faultsOnly_reading context left)
          intro first
          split
          · exact faultsOnly_pure first
          · exact others
  | conditional condition consequent alternative =>
      apply faultsOnly_bind (Expression.faultsOnly_reading context condition)
      intro value
      split
      · exact Expression.faultsOnly_reading context consequent
      · exact Expression.faultsOnly_reading context alternative

theorem Expression.faultsOnly_readings {κ : Type} (context : Context κ)
    (expressions : List Expression) :
    (Expression.reading.readings context expressions).FaultsOnly := by
  cases expressions with
  | nil => exact faultsOnly_pure []
  | cons first rest =>
      apply faultsOnly_bind (Expression.faultsOnly_reading context first)
      intro value
      apply faultsOnly_bind (Expression.faultsOnly_readings context rest)
      exact fun values => faultsOnly_pure (value :: values)

end

theorem Template.faultsOnly_partReadings {κ : Type} (context : Context κ) (parts : List Part) :
    (partReadings context parts).FaultsOnly := by
  induction parts with
  | nil => exact faultsOnly_pure ""
  | cons part rest induction =>
      cases part with
      | text content => exact faultsOnly_bind induction (fun _ => faultsOnly_pure _)
      | expression body =>
          apply faultsOnly_bind (Expression.faultsOnly_reading context body)
          intro value
          apply faultsOnly_bind (fun store => .ok (store.text value))
          intro text
          exact faultsOnly_bind induction (fun _ => faultsOnly_pure _)

theorem Formula.faultsOnly_reading {κ : Type} (context : Context κ) (formula : Formula) :
    (formula.reading context).FaultsOnly := by
  cases formula with
  | expression body => exact Expression.faultsOnly_reading context body
  | template body =>
      exact faultsOnly_bind (Template.faultsOnly_partReadings context body.parts)
        (fun _ => faultsOnly_pure _)

end ReactiveView
