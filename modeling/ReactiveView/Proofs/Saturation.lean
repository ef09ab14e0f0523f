import ReactiveView.Proofs.Continuing
import ReactiveView.Proofs.Traversal

/-!
# Saturated data

Data in which whatever a reactive slot holds is reactive all the way down. Writes may join
containers that are shared, inside themselves or around the slot that is written; since a
value is instrumented before it goes to a reactive slot, none of them makes a slot that
is reached from an instrumented container go dead.
-/

namespace ReactiveView.Store

set_option autoImplicit false

variable {store later final : Store} {root : Container}

/-- Every slot of every container reached from the root is reactive. -/
def Spread (store : Store) (root : Container) : Prop :=
  ∀ container, store.Reaches root container → store.Reactive container

/-- Every slot of every container reached from what a reactive slot holds is reactive. -/
def Saturated (store : Store) : Prop :=
  ∀ place slot inner, store.slot? place = some slot → slot.registry.isSome = true →
    slot.value.container? = some inner → store.Spread inner

/-- What a change of well-formed data leaves true: the data stay well-formed, saturated if
they were, and reactive all the way down from where they were. -/
structure Upholds (store later : Store) : Prop where
  closed : later.Closed
  saturated : store.Saturated → later.Saturated
  spread : ∀ root, store.Has root → store.Spread root → later.Has root ∧ later.Spread root

theorem Upholds.trans (first : store.Upholds later) (second : later.Upholds final) :
    store.Upholds final where
  closed := second.closed
  saturated := fun saturated => second.saturated (first.saturated saturated)
  spread := by
    intro root there spread
    obtain ⟨there', spread'⟩ := first.spread root there spread
    exact second.spread root there' spread'

theorem upholds_of_sameData (closed : store.Closed) (same : store.SameData later) :
    store.Upholds later := by
  obtain ⟨records, lists, registries⟩ := store
  obtain ⟨records', lists', registries'⟩ := later
  obtain ⟨equal, equal'⟩ := same
  cases equal
  cases equal'
  exact ⟨closed, id, fun _ there spread => ⟨there, spread⟩⟩

theorem Instruments.spread (instruments : store.Instruments later) (spread : store.Spread root) :
    later.Spread root := by
  intro container path
  exact instruments.reactive (spread container ((instruments.reaches root container).mp path))

theorem Instruments.upholds (instruments : store.Instruments later) (closed : store.Closed)
    (saturated : store.Saturated → later.Saturated) : store.Upholds later where
  closed := instruments.closed closed
  saturated := saturated
  spread := fun root there spread =>
    ⟨instruments.continues.has root there, instruments.spread spread⟩

theorem spread_instrumentValue (store : Store) {value : Value} {inner : Container}
    (holds : value.container? = some inner) : (store.instrumentValue value).Spread inner := by
  intro container path
  have instruments := instruments_instrumentFrom store value.container?.toList
  have start : inner ∈ value.container?.toList := by
    rw [holds]
    exact List.mem_singleton_self inner
  exact reactive_instrumentFrom start ((instruments.reaches inner container).mp path)

theorem saturated_instrumentValue (value : Value)
    (known : ∀ place slot inner, store.slot? place = some slot → slot.registry.isSome = true →
      slot.value.container? = some inner → slot.value = value ∨ store.Spread inner) :
    (store.instrumentValue value).Saturated := by
  intro place slot inner found attached holds
  have instruments : store.Instruments (store.instrumentValue value) :=
    instruments_instrumentFrom store _
  obtain ⟨before, present, same⟩ := instruments.value found
  have old (reactive : before.registry.isSome = true) :
      (store.instrumentValue value).Spread inner := by
    rcases known place before inner present reactive (same ▸ holds) with equal | spread
    · exact spread_instrumentValue store (by rw [← equal, same, holds])
    · exact instruments.spread spread
  cases start : value.container? with
  | none =>
      have unchanged : store.instrumentValue value = store := by
        rw [instrumentValue, start]
        rfl
      rw [unchanged, present] at found
      cases found
      exact old attached
  | some first =>
      have reached : store.instrumentValue value = store.instrumentFrom [first] := by
        rw [instrumentValue, start]
        rfl
      have reactive : ((store.instrumentFrom [first]).registryAt place).isSome = true := by
        rw [← reached, registryAt, found]
        exact attached
      rcases isSome_registryAt_instrumentFrom.mp reactive with early | ⟨-, path⟩
      · exact old (by simpa only [registryAt, present, Option.bind_some] using early)
      · -- the slot became reactive on the way down, and so did all beneath it
        have path' : store.Reaches first inner := path.step rfl present (same ▸ holds)
        intro container further
        rw [instruments.reaches] at further
        rw [reached]
        exact reactive_instrumentFrom (List.mem_singleton_self first) (path'.trans further)

theorem upholds_instrument (closed : store.Closed) (record : RecordId) :
    store.Upholds (store.instrument record) := by
  have instruments := instruments_instrumentFrom store [.record record]
  apply instruments.upholds closed
  intro saturated
  apply saturated_instrumentValue (.record record)
  intro place slot inner found attached holds
  exact .inr (saturated place slot inner found attached holds)

theorem upholds_instrumentField (closed : store.Closed) (record : RecordId) (key : String) :
    store.Upholds (store.instrumentField record key) := by
  apply (instruments_instrumentField store record key).upholds closed
  intro saturated
  unfold instrumentField
  split
  · next value found =>
      obtain ⟨slot, present, equal⟩ := Option.map_eq_some_iff.mp found
      have instruments := instruments_attach store (.field record key)
      apply saturated_instrumentValue value
      intro place held inner found' attached holds
      obtain ⟨before, there, same⟩ := instruments.value found'
      by_cases here : place = .field record key
      · subst here
        rw [present] at there
        cases there
        exact .inl (same.symm.trans equal)
      · have kept : store.registryAt place = held.registry := by
          rw [← registryAt_attach_of_ne here, registryAt, found']
          rfl
        rw [registryAt, there, Option.bind_some] at kept
        rw [← kept] at attached
        rw [← same] at holds
        exact .inr (instruments.spread (saturated place before inner there attached holds))
  · exact saturated

theorem has_put {place : Place} {slot : Slot} {container : Container}
    (there : store.Has container) : (store.put place slot).Has container := by
  cases container with
  | record record => exact Nat.lt_of_lt_of_eq there (size_records_put store place slot).symm
  | list list => exact Nat.lt_of_lt_of_eq there (size_lists_put store place slot).symm

theorem closed_put {place : Place} {slot : Slot} (closed : store.Closed)
    (inside : slot.value.Within store.Has) : (store.put place slot).Closed := by
  apply closed_of_slots closed (fun _ => has_put)
  intro other held found
  rcases slot?_put_cases store place slot other with same | ⟨-, written⟩
  · exact .inl ⟨held, same ▸ found, rfl⟩
  · cases written.symm.trans found
    exact .inr inside

/-- What is reactive all the way down has no path to a plain slot, so a write there
changes nothing of it. -/
theorem spread_put_plain {place : Place} {old : Value}
    (found : store.slot? place = some ⟨old, none⟩) (value : Value) (spread : store.Spread root) :
    (store.put place (.plain value)).Spread root := by
  have apart : ¬ store.Reaches root place.container := by
    intro path
    cases spread _ path place _ rfl found
  have back {container : Container}
      (path : (store.put place (.plain value)).Reaches root container) :
      store.Reaches root container := by
    induction path with
    | refl => exact .refl
    | tail _ holds before =>
        obtain ⟨other, slot, rfl, present, inner⟩ := mem_nested_iff.mp holds
        rcases slot?_put_cases store place (.plain value) other with same | ⟨rfl, -⟩
        · exact before.step rfl (same ▸ present) inner
        · exact absurd before apart
  intro container path other slot inside present
  subst inside
  rcases slot?_put_cases store place (.plain value) other with same | ⟨rfl, -⟩
  · exact spread _ (back path) other slot rfl (same ▸ present)
  · exact absurd (back path) apart

/-- A value that is reactive all the way down may be written anywhere with a registry. -/
theorem spread_put_reactive {place : Place} {value : Value} {registry : RegistryId}
    (below : ∀ inner, value.container? = some inner → store.Spread inner)
    (spread : store.Spread root) :
    (store.put place ⟨value, some registry⟩).Spread root := by
  intro container path other slot inside found
  have before : store.Reactive container := by
    rcases reaches_of_put path with old | ⟨start, holds, new⟩
    · exact spread container old
    · exact below start holds container new
  rcases slot?_put_cases store place ⟨value, some registry⟩ other with same | ⟨-, written⟩
  · exact before other slot inside (same ▸ found)
  · cases written.symm.trans found
    rfl

theorem upholds_put_plain (closed : store.Closed) {place : Place} {old : Value}
    (found : store.slot? place = some ⟨old, none⟩) {value : Value}
    (inside : value.Within store.Has) : store.Upholds (store.put place (.plain value)) where
  closed := closed_put closed inside
  saturated := by
    intro saturated other slot inner present attached holds
    rcases slot?_put_cases store place (.plain value) other with same | ⟨-, written⟩
    · exact spread_put_plain found value
        (saturated other slot inner (same ▸ present) attached holds)
    · cases written.symm.trans present
      cases attached
  spread := fun _ there spread => ⟨has_put there, spread_put_plain found value spread⟩

theorem has_overwrite {place : Place} {value : Value} {registry : RegistryId}
    {container : Container} (there : store.Has container) :
    (store.overwrite place value registry).Has container :=
  has_put ((instruments_instrumentFrom store _).continues.has container there)

theorem upholds_overwrite (closed : store.Closed) (place : Place) {value : Value}
    (inside : value.Within store.Has) (registry : RegistryId) :
    store.Upholds (store.overwrite place value registry) := by
  have instruments : store.Instruments (store.instrumentValue value) :=
    instruments_instrumentFrom store _
  have below (inner : Container) (holds : value.container? = some inner) :
      (store.instrumentValue value).Spread inner := spread_instrumentValue store holds
  refine ⟨?_, ?_, ?_⟩
  · apply closed_put (instruments.closed closed)
    intro container holds
    exact instruments.continues.has container (inside container holds)
  · intro saturated other slot inner present attached holds
    have between : (store.instrumentValue value).Saturated :=
      saturated_instrumentValue value (fun place slot inner found attached holds =>
        .inr (saturated place slot inner found attached holds))
    apply spread_put_reactive below
    rcases slot?_put_cases (store.instrumentValue value) place ⟨value, some registry⟩ other with
      same | ⟨-, written⟩
    · exact between other slot inner (same ▸ present) attached holds
    · cases written.symm.trans present
      exact below inner holds
  · intro root there spread
    exact ⟨has_overwrite there, spread_put_reactive below (instruments.spread spread)⟩

theorem Continues.upholds (continues : store.Continues later (fun _ => False))
    (closed : store.Closed) (closed' : later.Closed)
    (slots : ∀ place slot, later.slot? place = some slot →
      store.slot? place = some slot ∨ slot.registry = none) :
    store.Upholds later := by
  have spreads {root : Container} (there : store.Has root) (spread : store.Spread root) :
      later.Spread root := by
    intro container path
    have before := continues.reaches closed there path
    exact continues.reactive (closed.reaches there before) (spread container before)
  refine ⟨closed', ?_, fun root there spread => ⟨continues.has root there, spreads there spread⟩⟩
  intro saturated place slot inner found attached holds
  rcases slots place slot found with old | plain
  · exact spreads (closed place slot old inner holds)
      (saturated place slot inner old attached holds)
  · rw [plain] at attached
    cases attached

theorem upholds_newRecord (closed : store.Closed) {fields : List (String × Value)}
    (inside : ∀ field ∈ fields, field.2.Within store.Has) :
    store.Upholds (store.newRecord fields).2 := by
  have continues := continues_newRecord store fields
  refine continues.upholds closed ?_ ?_
  · apply closed_of_slots closed continues.has
    intro place slot found
    rcases slot?_newRecord found with before | ⟨-, field, member, rfl⟩
    · exact .inl ⟨slot, before, rfl⟩
    · exact .inr (inside field member)
  · intro place slot found
    rcases slot?_newRecord found with before | ⟨-, field, -, rfl⟩
    · exact .inl before
    · exact .inr rfl

theorem upholds_newList (closed : store.Closed) {elements : List Value}
    (inside : ∀ value ∈ elements, value.Within store.Has) :
    store.Upholds (store.newList elements).2 := by
  have continues := continues_newList store elements
  refine continues.upholds closed ?_ ?_
  · apply closed_of_slots closed continues.has
    intro place slot found
    rcases slot?_newList found with before | ⟨-, value, member, rfl⟩
    · exact .inl ⟨slot, before, rfl⟩
    · exact .inr (inside value member)
  · intro place slot found
    rcases slot?_newList found with before | ⟨-, value, -, rfl⟩
    · exact .inl before
    · exact .inr rfl

end ReactiveView.Store
