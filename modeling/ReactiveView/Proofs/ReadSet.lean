import ReactiveView.Proofs.Reach
import ReactiveView.Proofs.Rendering
import ReactiveView.Proofs.Tracking

/-!
# The reads determine the result

An observed evaluation depends on the values of the slots whose registries it
collects, on the elements of the lists that it renders, and on no other value. Of
these the lists are not tracked.
-/

namespace ReactiveView

set_option autoImplicit false

namespace Store

/-- All slots of a container are reactive. -/
def Reactive (store : Store) (container : Container) : Prop :=
  ∀ place slot, place.container = container → store.slot? place = some slot →
    slot.registry.isSome

/-- The same containers, keys, list lengths and registries. -/
structure SameShape (store other : Store) : Prop where
  records : other.records.size = store.records.size
  lists : other.lists.size = store.lists.size
  keys : ∀ record, (other.fields record).keys = (store.fields record).keys
  lengths : ∀ list, (other.items list).length = (store.items list).length
  registries : ∀ place, other.registryAt place = store.registryAt place

theorem isSome_lookup {α : Type} (entries : List (String × α)) (key : String) :
    (entries.lookup key).isSome = decide (key ∈ entries.map Prod.fst) := by
  induction entries with
  | nil => rfl
  | cons entry rest induction =>
      obtain ⟨name, held⟩ := entry
      by_cases same : key = name
      · simp [same]
      · have differs : (key == name) = false := by simpa using same
        simp [List.lookup_cons, differs, same, induction]

theorem SameShape.presence {store other : Store} (same : store.SameShape other) (place : Place) :
    (other.slot? place).isSome = (store.slot? place).isSome := by
  cases place with
  | field record key =>
      have keys := same.keys record
      unfold Dictionary.keys at keys
      simp only [slot?, Dictionary.find?, isSome_lookup, keys]
  | item list index =>
      have lengths := same.lengths list
      rw [Bool.eq_iff_iff]
      simp [slot?, lengths]

end Store

namespace Formula

variable {κ : Type}

/-- The evaluation renders a list as text, itself or inside another one. -/
def Renders (formula : Formula) (context : Context κ) (store : Store) (list : ListId) : Prop :=
  ∃ value, .text value ∈ (formula.reading context store).glimpses ∧ store.Renders value list

/-- A second store answers alike to all that is learnt if it holds the same in the
slots tracked and in the lists rendered. -/
theorem agreesOn_of_reads {formula : Formula} {context : Context κ} {store other : Store}
    (reactive : ∀ container, store.Reaches (.record context.data) container →
      store.Reactive container)
    (shape : store.SameShape other)
    (values : ∀ place slot, .slot place ∈ (formula.reading context store).glimpses →
      store.slot? place = some slot → slot.registry.isSome →
      other.peek place = some slot.value)
    (elements : ∀ list, formula.Renders context store list →
      (other.items list).map Slot.value = (store.items list).map Slot.value) :
    store.AgreesOn other (formula.reading context store).glimpses := by
  have confined : (formula.reading context).Confined store _ _ :=
    formula.confined_reading (store.closedUnder_reaches (.record context.data)) .refl
  intro glimpse member
  have inside := confined.glimpses glimpse member
  cases glimpse with
  | slot place =>
      change other.peek place = store.peek place
      cases found : store.slot? place with
      | none =>
          have absent := shape.presence place
          rw [found] at absent
          have missing : other.slot? place = none := by simpa using absent
          simp only [Store.peek, found, missing]
      | some slot =>
          have tracked := reactive place.container inside place slot rfl found
          rw [values place slot member found tracked]
          simp only [Store.peek, found, Option.map_some]
  | presence place => exact shape.presence place
  | length list => exact shape.lengths list
  | text value =>
      exact Store.text_agrees (fun list renders => elements list ⟨value, member, renders⟩)

end Formula

namespace Engine

variable {κ σ : Type}

theorem evaluateFormula_idle (invoke : Invoke κ σ) {context : Context κ} {formula : Formula}
    (plain : formula.callsNone context.methods = true) {state : State κ σ}
    (idle : state.observer = none) :
    evaluateFormula invoke context formula state =
      .ended (formula.reading context state.store).outcome state := by
  rw [(follows_evaluateFormula invoke context formula plain).ends state,
    State.noteAll_of_unobserved idle]

theorem evaluateFormula_observed (invoke : Invoke κ σ) {context : Context κ} {formula : Formula}
    (plain : formula.callsNone context.methods = true) {state : State κ σ} {observer : Observer}
    (observed : state.observer = some observer) :
    ∃ later, evaluateFormula invoke context formula state =
        .ended (formula.reading context state.store).outcome later ∧
      later.observer = some
        ((state.store.tracked (formula.reading context state.store).glimpses).foldl
          Observer.see observer) := by
  refine ⟨_, (follows_evaluateFormula invoke context formula plain).ends state, ?_⟩
  rw [State.noteAll_eq_trackAll, State.observer_trackAll observed]

/-- On a second state of the same shape that holds the same in each slot whose
registry was collected, and in each list rendered, an observed evaluation ends in
the same way and collects the same registries in the same order. -/
theorem evaluation_determined_by_reads (invoke : Invoke κ σ) (context : Context κ)
    (formula : Formula) (plain : formula.callsNone context.methods = true)
    (state : State κ σ) (observer : Observer) (observed : state.observer = some observer)
    (reactive : ∀ container, state.store.Reaches (.record context.data) container →
      state.store.Reactive container) :
    ∃ outcome later final,
      evaluateFormula invoke context formula state = .ended outcome later ∧
      later.observer = some final ∧
      ∀ other : State κ σ, other.observer = some observer →
        state.store.SameShape other.store →
        (∀ place slot registry, state.store.slot? place = some slot →
          slot.registry = some registry → registry ∈ final.reads →
          other.store.peek place = some slot.value) →
        (∀ list, formula.Renders context state.store list →
          (other.store.items list).map Slot.value =
            (state.store.items list).map Slot.value) →
        ∃ later', evaluateFormula invoke context formula other = .ended outcome later' ∧
          later'.observer = some final := by
  obtain ⟨later, ended, collected⟩ := evaluateFormula_observed invoke plain observed
  refine ⟨_, later, _, ended, collected, ?_⟩
  intro other observed' shape values elements
  have agrees : state.store.AgreesOn other.store
      (formula.reading context state.store).glimpses := by
    refine Formula.agreesOn_of_reads reactive shape ?_ elements
    intro place slot member found tracked
    obtain ⟨registry, attached⟩ := Option.isSome_iff_exists.mp tracked
    apply values place slot registry found attached
    rw [Observer.mem_reads_foldl_see]
    right
    apply Store.mem_tracked.mpr
    exact ⟨place, member, by simp only [Store.registryAt, found, Option.bind_some, attached]⟩
  have same := (follows_evaluateFormula invoke context formula plain).determined
    state.store other.store agrees
  obtain ⟨later', ended', collected'⟩ := evaluateFormula_observed invoke plain observed'
  refine ⟨later', ?_, ?_⟩
  · rw [ended', same]
  · rw [collected', same]
    have registries (glimpses : List Glimpse) :
        other.store.tracked glimpses = state.store.tracked glimpses := by
      simp only [Store.tracked, shape.registries]
    rw [registries]

def listed : Store where
  records := #[(Dictionary.empty.insert "items" ⟨.list ⟨0⟩, some ⟨0⟩⟩).insert "note"
    ⟨.text "x", some ⟨1⟩⟩]
  lists := #[[⟨.text "a", some ⟨2⟩⟩]]
  registries := #[[], [], []]

def underWay (store : Store) : State Unit Unit :=
  { State.initial () with
    store
    observer := some ⟨⟨7⟩, []⟩ }

def shownItems : Formula :=
  .expression (.binary .add (.literal (.text "")) (.identifier "items"))

theorem listed_reactive (container : Container) : listed.Reactive container := by
  rintro place slot - found
  cases place with
  | field record key =>
      obtain ⟨index⟩ := record
      cases index with
      | zero =>
          have member := Dictionary.find?_eq_some_iff.mp found
          have cases' : (key, slot) = ("items", ⟨.list ⟨0⟩, some ⟨0⟩⟩) ∨
              (key, slot) = ("note", ⟨.text "x", some ⟨1⟩⟩) := by
            simpa [listed, Store.fields, Dictionary.insert, Dictionary.insertEntry,
              Dictionary.empty] using member
          rcases cases' with same | same <;> simp [(Prod.mk.inj same).2]
      | succ index =>
          simp [listed, Store.slot?, Store.fields, Dictionary.find?, Dictionary.empty] at found
  | item list index =>
      have member := List.mem_of_getElem? found
      obtain ⟨index⟩ := list
      cases index with
      | zero =>
          have same : slot = ⟨.text "a", some ⟨2⟩⟩ := by
            simpa [listed, Store.items] using member
          simp [same]
      | succ index => simp [listed, Store.items] at member

/-- Another text beside a list leaves the text of the list as it was. -/
theorem evaluation_determined_by_reads_listed :
    ∃ later : State Unit Unit,
      evaluateFormula (fun _ _ => fail .nestedEvaluation) ⟨⟨0⟩, .empty⟩ shownItems
        (underWay (listed.put (.field ⟨0⟩ "note") ⟨.text "y", some ⟨1⟩⟩)) =
          .ended (.ok (.text "a")) later ∧
      later.observer = some ⟨⟨7⟩, [⟨0⟩]⟩ := by
  have slots (place : Place) :
      (listed.put (.field ⟨0⟩ "note") ⟨.text "y", some ⟨1⟩⟩).slot? place =
        if place = .field ⟨0⟩ "note" then some ⟨.text "y", some ⟨1⟩⟩
        else listed.slot? place := Store.slot?_put rfl _ place
  obtain ⟨outcome, later, final, ended, collected, alike⟩ :=
    evaluation_determined_by_reads (fun _ _ => fail .nestedEvaluation)
      (⟨⟨0⟩, .empty⟩ : Context Unit) shownItems rfl (underWay listed) ⟨⟨7⟩, []⟩ rfl
      (fun container _ => listed_reactive container)
  cases ended
  cases collected
  apply alike (underWay (listed.put (.field ⟨0⟩ "note") ⟨.text "y", some ⟨1⟩⟩)) rfl
  · refine ⟨rfl, rfl, ?_, fun _ => rfl, ?_⟩
    · rintro ⟨index⟩
      cases index <;> rfl
    · intro place
      simp only [underWay, Store.registryAt, slots]
      split
      · next same =>
          subst same
          rfl
      · rfl
  · intro place slot registry found attached member
    have first : registry = ⟨0⟩ := List.mem_singleton.mp member
    simp only [underWay, Store.peek, slots] at found ⊢
    split
    · next same =>
        subst same
        have held : slot = ⟨.text "x", some ⟨1⟩⟩ := Option.some.inj (found.symm.trans rfl)
        rw [held, first] at attached
        cases attached
    · rw [found]
      rfl
  · exact fun _ _ => rfl

end Engine

end ReactiveView
