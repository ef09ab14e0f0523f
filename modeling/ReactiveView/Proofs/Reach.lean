import Mathlib.Logic.Relation
import ReactiveView.Proofs.Reading

/-!
# What an evaluation can reach

The containers reachable from a container by way of slots, and the confinement of
an evaluation to them: all that it learns is about containers reachable from the
root of its context.
-/

namespace ReactiveView

set_option autoImplicit false

namespace Dictionary

variable {α : Type}

theorem lookup_eq_some_iff {entries : List (String × α)}
    (distinct : (entries.map Prod.fst).Nodup) {key : String} {value : α} :
    entries.lookup key = some value ↔ (key, value) ∈ entries := by
  induction entries with
  | nil => simp
  | cons entry rest induction =>
      obtain ⟨name, held⟩ := entry
      simp only [List.map_cons, List.nodup_cons] at distinct
      by_cases same : key = name
      · subst same
        have absent : (key, value) ∉ rest := fun member =>
          distinct.1 (List.mem_map_of_mem (f := Prod.fst) member)
        simp [absent, eq_comm]
      · have differs : (key == name) = false := by simpa using same
        simp [List.lookup_cons, differs, same, induction distinct.2]

theorem find?_eq_some_iff {table : Dictionary α} {key : String} {value : α} :
    table.find? key = some value ↔ (key, value) ∈ table.entries :=
  lookup_eq_some_iff table.distinct

end Dictionary

namespace Place

def container : Place → Container
  | field record _ => .record record
  | item list _ => .list list

end Place

namespace Store

variable {store : Store}

theorem mem_slots_iff {container : Container} {slot : Slot} :
    slot ∈ store.slots container ↔
      ∃ place, place.container = container ∧ store.slot? place = some slot := by
  constructor
  · intro member
    cases container with
    | record record =>
        obtain ⟨⟨key, held⟩, among, rfl⟩ := List.mem_map.mp member
        exact ⟨.field record key, rfl, Dictionary.find?_eq_some_iff.mpr among⟩
    | list list =>
        obtain ⟨index, found⟩ := List.mem_iff_getElem?.mp member
        exact ⟨.item list index, rfl, found⟩
  · rintro ⟨place, rfl, found⟩
    cases place with
    | field record key =>
        exact List.mem_map.mpr ⟨(key, slot), Dictionary.find?_eq_some_iff.mp found, rfl⟩
    | item list index => exact List.mem_of_getElem? found

theorem mem_nested_iff {outer inner : Container} :
    inner ∈ store.nested outer ↔
      ∃ place slot, place.container = outer ∧ store.slot? place = some slot ∧
        slot.value.container? = some inner := by
  simp only [nested, List.mem_filterMap, mem_slots_iff]
  constructor
  · rintro ⟨slot, ⟨place, inside, found⟩, holds⟩
    exact ⟨place, slot, inside, found, holds⟩
  · rintro ⟨place, slot, inside, found, holds⟩
    exact ⟨slot, ⟨place, inside, found⟩, holds⟩

/-- A container is reached from another one by way of what slots hold. -/
def Reaches (store : Store) : Container → Container → Prop :=
  Relation.ReflTransGen (fun outer inner => inner ∈ store.nested outer)

theorem Reaches.step {first outer : Container} (path : store.Reaches first outer)
    {place : Place} (inside : place.container = outer) {slot : Slot}
    (found : store.slot? place = some slot) {inner : Container}
    (holds : slot.value.container? = some inner) : store.Reaches first inner :=
  path.tail (mem_nested_iff.mpr ⟨place, slot, inside, found, holds⟩)

end Store

namespace Value

def Within (among : Container → Prop) (value : Value) : Prop :=
  ∀ container, value.container? = some container → among container

theorem within_literal (among : Container → Prop) (literal : Literal) :
    literal.value.Within among := by
  intro container holds
  cases literal <;> cases holds

end Value

namespace Glimpse

/-- Only the given containers are looked into. -/
def Within (among : Container → Prop) : Glimpse → Prop
  | slot place => among place.container
  | presence place => among place.container
  | length list => among (.list list)
  | text value => value.Within among

end Glimpse

namespace Store

def ClosedUnder (store : Store) (among : Container → Prop) : Prop :=
  ∀ place slot, store.slot? place = some slot → among place.container →
    slot.value.Within among

theorem closedUnder_reaches (store : Store) (first : Container) :
    store.ClosedUnder (store.Reaches first) :=
  fun _ _ found path _ holds => path.step rfl found holds

end Store

namespace Reading

variable {α β κ : Type} {store : Store} {among : Container → Prop}

/-- All that is learnt is about the given containers, and a result is as stated. -/
structure Confined (reading : Reading α) (store : Store) (among : Container → Prop)
    (result : α → Prop) : Prop where
  glimpses : ∀ glimpse ∈ (reading store).glimpses, glimpse.Within among
  outcome : ∀ value, (reading store).outcome = .ok value → result value

theorem confined_pure {value : α} {result : α → Prop} (holds : result value) :
    (pure value).Confined store among result := by
  refine ⟨?_, ?_⟩
  · intro glimpse member
    cases member
  · rintro _ ⟨⟩
    exact holds

theorem confined_fail (error : Error) (result : α → Prop) :
    (fail error).Confined store among result := by
  refine ⟨?_, ?_⟩
  · intro glimpse member
    cases member
  · intro value ended
    cases ended

theorem confined_consult {glimpses : List Glimpse} {compute : Store → Except Error α}
    {result : α → Prop} (inside : ∀ glimpse ∈ glimpses, glimpse.Within among)
    (holds : ∀ value, compute store = .ok value → result value) :
    (consult glimpses compute).Confined store among result := ⟨inside, holds⟩

theorem confined_bind {first : Reading α} {second : α → Reading β} {middle : α → Prop}
    {result : β → Prop} (left : first.Confined store among middle)
    (right : ∀ value, middle value → (second value).Confined store among result) :
    (first >>= second).Confined store among result := by
  change (first.bind second).Confined store among result
  cases ended : (first store).outcome with
  | error error =>
      refine ⟨?_, ?_⟩ <;> rw [bind_of_error ended]
      · exact left.glimpses
      · intro value impossible
        cases impossible
  | ok value =>
      have rest := right value (left.outcome value ended)
      refine ⟨?_, ?_⟩ <;> rw [bind_of_ok ended]
      · intro glimpse member
        rcases List.mem_append.mp member with before | after
        · exact left.glimpses glimpse before
        · exact rest.glimpses glimpse after
      · exact rest.outcome

/-- What a slot holds is among the containers if its place is. -/
theorem confined_slot (closed : store.ClosedUnder among) {place : Place}
    (inside : among place.container) :
    (slot place).Confined store among (fun found => ∀ value, found = some value →
      value.Within among) := by
  refine confined_consult ?_ ?_
  · intro glimpse member
    obtain rfl := List.mem_singleton.mp member
    exact inside
  · rintro found ⟨⟩ value holds
    obtain ⟨held, present, rfl⟩ := Option.map_eq_some_iff.mp holds
    exact closed place held present inside

end Reading

namespace Value

theorem within_of_scalar {value : Value} (scalar : value.container? = none)
    (among : Container → Prop) : value.Within among := by
  intro container holds
  rw [scalar] at holds
  cases holds

end Value

theorem Builtin.apply_scalar (store : Store) (builtin : Builtin) (argument : Option Value) :
    (builtin.apply store argument).container? = none := by
  cases builtin with
  | string => rfl
  | number => cases argument <;> rfl
  | boolean => rfl

namespace Operation

variable {store : Store}

theorem arithmetic_scalar {operator : BinaryOperator} {compute : Float → Float → Float}
    {left right value : Value}
    (ended : arithmetic store operator compute left right = .ok value) :
    value.container? = none := by
  unfold arithmetic at ended
  split at ended
  · cases ended
  · split at ended
    · cases ended
    · cases ended
      rfl

theorem relation_scalar {operator : BinaryOperator} {accepted : List Ordering}
    {left right value : Value} (ended : relation store operator accepted left right = .ok value) :
    value.container? = none := by
  unfold relation at ended
  cases order : compare store operator left right with
  | error error =>
      rw [order] at ended
      cases ended
  | ok order' =>
      rw [order] at ended
      cases ended
      rfl

theorem binary_scalar {operator : BinaryOperator} {left right value : Value}
    (ended : binary store operator left right = .ok value) : value.container? = none := by
  cases operator with
  | add =>
      simp only [binary] at ended
      split at ended
      · cases ended
        rfl
      · exact arithmetic_scalar ended
  | subtract | multiply | divide | remainder => exact arithmetic_scalar ended
  | less | lessOrEqual | greater | greaterOrEqual => exact relation_scalar ended
  | equal | notEqual | strictEqual | strictNotEqual =>
      cases ended
      rfl

theorem unary_scalar {operator : UnaryOperator} {operand value : Value}
    (ended : unary store operator operand = .ok value) : value.container? = none := by
  cases operator with
  | not =>
      cases ended
      rfl
  | negate | plus =>
      simp only [unary, numeric] at ended
      cases reads : operand.number? with
      | none =>
          rw [reads] at ended
          cases ended
      | some number =>
          rw [reads] at ended
          cases ended
          rfl

variable {among : Container → Prop}

theorem numericGlimpses_within {operand : Value} (inside : operand.Within among) :
    ∀ glimpse ∈ numericGlimpses operand, glimpse.Within among := by
  intro glimpse member
  unfold numericGlimpses at member
  split at member
  · cases member
  · obtain rfl := List.mem_singleton.mp member
    exact inside

theorem arithmeticGlimpses_within {left right : Value} (first : left.Within among)
    (second : right.Within among) :
    ∀ glimpse ∈ arithmeticGlimpses left right, glimpse.Within among := by
  intro glimpse member
  unfold arithmeticGlimpses at member
  split at member
  · exact numericGlimpses_within second glimpse member
  · obtain rfl := List.mem_singleton.mp member
    exact first

theorem relationGlimpses_within {left right : Value} (first : left.Within among)
    (second : right.Within among) :
    ∀ glimpse ∈ relationGlimpses left right, glimpse.Within among := by
  intro glimpse member
  unfold relationGlimpses at member
  split at member
  · cases member
  · exact arithmeticGlimpses_within first second glimpse member

theorem binaryGlimpses_within {operator : BinaryOperator} {left right : Value}
    (first : left.Within among) (second : right.Within among) :
    ∀ glimpse ∈ binaryGlimpses operator left right, glimpse.Within among := by
  cases operator with
  | add =>
      intro glimpse member
      simp only [binaryGlimpses] at member
      split at member
      · rcases List.mem_cons.mp member with rfl | member
        · exact first
        · obtain rfl := List.mem_singleton.mp member
          exact second
      · exact arithmeticGlimpses_within first second glimpse member
  | subtract | multiply | divide | remainder => exact arithmeticGlimpses_within first second
  | less | lessOrEqual | greater | greaterOrEqual => exact relationGlimpses_within first second
  | equal | notEqual | strictEqual | strictNotEqual =>
      intro glimpse member
      cases member

theorem unaryGlimpses_within {operator : UnaryOperator} {operand : Value}
    (inside : operand.Within among) :
    ∀ glimpse ∈ unaryGlimpses operator operand, glimpse.Within among := by
  cases operator with
  | not =>
      intro glimpse member
      cases member
  | negate | plus => exact numericGlimpses_within inside

end Operation

namespace Access

variable {store : Store} {among : Container → Prop}

def Within (among : Container → Prop) : Access → Prop
  | slot place => among place.container
  | value held => held.Within among

theorem within_value {held : Value} (scalar : held.container? = none) :
    (value held).Within among := Value.within_of_scalar scalar among

theorem member_within {target : Value} (inside : target.Within among) {name : String}
    {access : Access} (ended : member store target name = .ok access) : access.Within among := by
  cases target with
  | record record =>
      cases ended
      exact inside (.record record) rfl
  | list list =>
      cases ended
      apply within_value
      split <;> rfl
  | text text =>
      cases ended
      apply within_value
      split <;> rfl
  | null => cases ended
  | bool _ | number _ =>
      cases ended
      exact within_value rfl

theorem element_within {target index : Value} (inside : target.Within among)
    {access : Access} (ended : element store target index = .ok access) :
    access.Within among := by
  cases target with
  | list list =>
      cases ended
      cases position? index with
      | none => exact within_value rfl
      | some position => exact inside (.list list) rfl
  | text text =>
      cases ended
      apply within_value
      cases position? index with
      | none => rfl
      | some position =>
          simp only [unitAt]
          split <;> rfl
  | record _ | null | bool _ | number _ =>
      unfold element at ended
      exact member_within inside ended

theorem memberGlimpses_within {target : Value} (inside : target.Within among) :
    ∀ glimpse ∈ memberGlimpses target, glimpse.Within among := by
  intro glimpse member
  cases target with
  | list list =>
      obtain rfl := List.mem_singleton.mp member
      exact inside (.list list) rfl
  | _ => cases member

theorem elementGlimpses_within {target index : Value} (inside : index.Within among) :
    ∀ glimpse ∈ elementGlimpses target index, glimpse.Within among := by
  intro glimpse member
  cases target with
  | list list => cases member
  | text text => cases member
  | _ =>
      obtain rfl := List.mem_singleton.mp member
      exact inside

end Access

namespace Reading

variable {κ : Type} {store : Store} {among : Container → Prop}

theorem confined_access (closed : store.ClosedUnder among) {target : Access}
    (inside : target.Within among) :
    (access target).Confined store among (Value.Within among) := by
  cases target with
  | value value => exact confined_pure inside
  | slot place =>
      apply confined_bind (confined_slot closed inside)
      intro found holds
      apply confined_pure
      cases found with
      | none => exact Value.within_of_scalar rfl among
      | some value => exact holds value rfl

theorem confined_name (closed : store.ClosedUnder among) (context : Context κ)
    (root : among (.record context.data)) (name : String) :
    (Reading.name context name).Confined store among (Value.Within among) := by
  refine confined_bind (confined_slot closed root) ?_
  intro found holds
  cases found with
  | some value => exact confined_pure (holds value rfl)
  | none =>
      simp only
      split
      · exact confined_fail _ _
      · exact confined_fail _ _

theorem confined_call (context : Context κ) (root : among (.record context.data))
    (name : String) {arguments : List Value}
    (inside : ∀ argument ∈ arguments, argument.Within among) :
    (call context name arguments).Confined store among (Value.Within among) := by
  have presence : (consult [.presence (.field context.data name)]
      (fun store => .ok (store.slot? (.field context.data name)).isSome)).Confined store among
        (fun _ : Bool => True) := by
    refine confined_consult ?_ (fun _ _ => trivial)
    intro glimpse member
    obtain rfl := List.mem_singleton.mp member
    exact root
  apply confined_bind presence
  intro field _
  split
  · exact confined_fail _ _
  · split
    · next builtin _ =>
        apply confined_consult
        · intro glimpse member
          cases builtin with
          | string =>
              cases arguments with
              | nil => cases member
              | cons first rest =>
                  obtain rfl := List.mem_singleton.mp member
                  exact inside first List.mem_cons_self
          | number | boolean => cases member
        · rintro value ⟨⟩
          exact Value.within_of_scalar (Builtin.apply_scalar _ _ _) among
    · exact confined_fail _ _

end Reading

namespace Expression

variable {κ : Type} {store : Store} {among : Container → Prop} {context : Context κ}

mutual

/-- An evaluation stays among the containers that its root leads to. -/
theorem confined_reading (closed : store.ClosedUnder among)
    (root : among (.record context.data)) (expression : Expression) :
    (expression.reading context).Confined store among (Value.Within among) := by
  cases expression with
  | literal constant =>
      exact Reading.confined_pure (Value.within_literal among constant)
  | identifier name => exact Reading.confined_name closed context root name
  | member target name =>
      apply Reading.confined_bind (confined_reading closed root target)
      intro value inside
      refine Reading.confined_bind (Reading.confined_consult
        (Access.memberGlimpses_within inside) (fun _ => Access.member_within inside)) ?_
      exact fun _ => Reading.confined_access closed
  | index target position =>
      apply Reading.confined_bind (confined_reading closed root target)
      intro value inside
      apply Reading.confined_bind (confined_reading closed root position)
      intro index within
      refine Reading.confined_bind (Reading.confined_consult
        (Access.elementGlimpses_within within) (fun _ => Access.element_within inside)) ?_
      exact fun _ => Reading.confined_access closed
  | call callee arguments =>
      cases callee with
      | identifier name =>
          apply Reading.confined_bind (confined_readings closed root arguments)
          intro values inside
          exact Reading.confined_call context root name inside
      | _ => exact Reading.confined_fail _ _
  | unary operator operand =>
      apply Reading.confined_bind (confined_reading closed root operand)
      intro value inside
      exact Reading.confined_consult (Operation.unaryGlimpses_within inside)
        (fun _ ended => Value.within_of_scalar (Operation.unary_scalar ended) among)
  | binary operator left right =>
      apply Reading.confined_bind (confined_reading closed root left)
      intro first inside
      apply Reading.confined_bind (confined_reading closed root right)
      intro second within
      exact Reading.confined_consult (Operation.binaryGlimpses_within inside within)
        (fun _ ended => Value.within_of_scalar (Operation.binary_scalar ended) among)
  | logical operator left right =>
      have second := confined_reading closed root right
      cases operator with
      | and =>
          apply Reading.confined_bind (confined_reading closed root left)
          intro first inside
          split
          · exact second
          · exact Reading.confined_pure inside
      | or =>
          apply Reading.confined_bind (confined_reading closed root left)
          intro first inside
          split
          · exact Reading.confined_pure inside
          · exact second
  | conditional condition consequent alternative =>
      apply Reading.confined_bind (confined_reading closed root condition)
      intro value _
      split
      · exact confined_reading closed root consequent
      · exact confined_reading closed root alternative

theorem confined_readings (closed : store.ClosedUnder among)
    (root : among (.record context.data)) (expressions : List Expression) :
    (reading.readings context expressions).Confined store among
      (fun values => ∀ value ∈ values, value.Within among) := by
  cases expressions with
  | nil =>
      apply Reading.confined_pure
      intro value member
      cases member
  | cons first rest =>
      apply Reading.confined_bind (confined_reading closed root first)
      intro value inside
      apply Reading.confined_bind (confined_readings closed root rest)
      intro values within
      apply Reading.confined_pure
      intro other member
      rcases List.mem_cons.mp member with rfl | among
      · exact inside
      · exact within other among

end

end Expression

namespace Formula

variable {κ : Type} {store : Store} {among : Container → Prop} {context : Context κ}

theorem confined_partReadings (closed : store.ClosedUnder among)
    (root : among (.record context.data)) (parts : List Template.Part) :
    (Template.partReadings context parts).Confined store among (fun _ => True) := by
  induction parts with
  | nil => exact Reading.confined_pure trivial
  | cons part rest induction =>
      cases part with
      | text content =>
          exact Reading.confined_bind induction (fun _ _ => Reading.confined_pure trivial)
      | expression body =>
          apply Reading.confined_bind (Expression.confined_reading closed root body)
          intro value inside
          have shown : (Reading.text value).Confined store among (fun _ => True) := by
            refine Reading.confined_consult ?_ (fun _ _ => trivial)
            intro glimpse member
            obtain rfl := List.mem_singleton.mp member
            exact inside
          refine Reading.confined_bind shown (fun _ _ => ?_)
          exact Reading.confined_bind induction (fun _ _ => Reading.confined_pure trivial)

theorem confined_reading (closed : store.ClosedUnder among)
    (root : among (.record context.data)) (formula : Formula) :
    (formula.reading context).Confined store among (Value.Within among) := by
  cases formula with
  | expression body => exact Expression.confined_reading closed root body
  | template body =>
      apply Reading.confined_bind (confined_partReadings closed root body.parts)
      intro text _
      exact Reading.confined_pure (Value.within_of_scalar rfl among)

end Formula

end ReactiveView
