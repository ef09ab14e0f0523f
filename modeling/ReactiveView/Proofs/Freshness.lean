import ReactiveView.Proofs.Conduct
import ReactiveView.Proofs.Continuing

/-!
# Bindings that are up to date

A binding is current if its latest evaluation has the outcome that one on the present
data would have, and its subscriptions cover what that one would read. Between any two
moments at which callers have control, a binding either becomes current or was not
current before and has not been touched.
-/

namespace ReactiveView

set_option autoImplicit false

namespace Binding

variable {κ : Type} {binding : Binding κ} {store later : Store} {changed : Place → Prop}
  {tolerant : Prop}

/-- The latest evaluation says what the present data say, its value has been handed on,
and its reads are subscribed to. Whether it may have failed is left open. -/
def Current (tolerant : Prop) (binding : Binding κ) (store : Store) : Prop :=
  ∃ evaluation, binding.latest = some evaluation ∧
    evaluation.outcome = (binding.account store).outcome ∧
    (∀ value, evaluation.outcome = .ok value → binding.handed = some value) ∧
    (∀ error, evaluation.outcome = .error error → tolerant) ∧
    ∀ registry ∈ store.tracked (binding.account store).glimpses,
      registry ∈ binding.subscriptions

theorem Current.sameData (current : binding.Current tolerant store) (plain : binding.Plain)
    (same : store.SameData later) : binding.Current tolerant later := by
  obtain ⟨evaluation, latest, outcome, handed, errors, covered⟩ := current
  refine ⟨evaluation, latest, ?_, handed, errors, ?_⟩
  · rw [binding.account_sameData plain.1 same]
    exact outcome
  · rw [binding.account_sameData plain.1 same, same.tracked]
    exact covered

theorem Current.continues (current : binding.Current tolerant store) (plain : binding.Plain)
    (grounded : store.Grounded binding.context.data) (continues : store.Continues later changed)
    (apart : ∀ place, changed place → ∃ registry, store.registryAt place = some registry ∧
      registry ∉ binding.subscriptions) :
    binding.Current tolerant later := by
  obtain ⟨evaluation, latest, outcome, handed, errors, covered⟩ := current
  have account : binding.account later = binding.account store := by
    apply account_continues plain.1 grounded continues
    intro place change member
    obtain ⟨registry, attached, absent⟩ := apart place change
    apply absent
    apply covered
    exact Store.mem_tracked.mpr ⟨place, member, attached⟩
  refine ⟨evaluation, latest, ?_, handed, errors, ?_⟩
  · rw [account]
    exact outcome
  · rw [account, tracked_continues grounded continues]
    exact covered

/-- The value handed on, or the error met, is what the engine gives on the present
data. -/
def UpToDate {σ : Type} (binding : Binding κ) (invoke : Invoke κ σ) (state : State κ σ) : Prop :=
  ∃ evaluation, binding.latest = some evaluation ∧
    Engine.evaluateFormula invoke binding.context binding.formula state =
      .ended evaluation.outcome state ∧
    ∀ value, evaluation.outcome = .ok value → binding.handed = some value

theorem Current.upToDate {σ : Type} {state : State κ σ}
    (current : binding.Current tolerant state.store) (plain : binding.Plain)
    (invoke : Invoke κ σ) (idle : state.observer = none) : binding.UpToDate invoke state := by
  obtain ⟨evaluation, latest, outcome, handed, -, -⟩ := current
  refine ⟨evaluation, latest, ?_, handed⟩
  rw [Engine.evaluateFormula_idle invoke plain.1 idle, outcome]
  rfl

/-- Where no failure is left open, the present value has been handed on. -/
theorem Current.value {σ : Type} {state : State κ σ}
    (current : binding.Current tolerant state.store) (plain : binding.Plain)
    (strict : ¬ tolerant) (invoke : Invoke κ σ) (idle : state.observer = none) :
    ∃ value, binding.handed = some value ∧
      Engine.evaluateFormula invoke binding.context binding.formula state =
        .ended (.ok value) state := by
  obtain ⟨evaluation, -, outcome, handed, errors, -⟩ := current
  rw [Engine.evaluateFormula_idle invoke plain.1 idle]
  cases ended : evaluation.outcome with
  | error error => exact (strict (errors error ended)).elim
  | ok value =>
      refine ⟨value, handed value ended, ?_⟩
      rw [← ended, outcome]
      rfl

end Binding

namespace State

variable {κ σ : Type} {tolerant : Prop} {state later final : State κ σ} {id : SubscriberId}
  {binding : Binding κ}

/-- Each binding that is alive later is current then, or it was not current before and
has not been touched since. -/
structure Settles (tolerant : Prop) (state later : State κ σ) : Prop where
  kept : ∀ place registry, state.store.registryAt place = some registry →
    later.store.registryAt place = some registry
  bindings : ∀ id binding, later.binding? id = some binding → later.isAlive id = true →
    binding.Current tolerant later.store ∨
      ¬ binding.Current tolerant state.store ∧ state.binding? id = some binding ∧
        state.isAlive id = true

theorem Settles.trans (first : state.Settles tolerant later)
    (second : later.Settles tolerant final) : state.Settles tolerant final where
  kept := fun place registry attached =>
    second.kept place registry (first.kept place registry attached)
  bindings := by
    intro id binding found alive
    rcases second.bindings id binding found alive with current | ⟨stale, found', alive'⟩
    · exact .inl current
    · rcases first.bindings id binding found' alive' with current | untouched
      · exact absurd current stale
      · exact .inr untouched

/-- A live binding is current. -/
def Fresh (tolerant : Prop) (id : SubscriberId) (state : State κ σ) : Prop :=
  ∀ binding, state.binding? id = some binding → state.isAlive id = true →
    binding.Current tolerant state.store

theorem Settles.fresh (settles : state.Settles tolerant later) (fresh : state.Fresh tolerant id) :
    later.Fresh tolerant id := by
  intro binding found alive
  rcases settles.bindings id binding found alive with current | ⟨stale, found', alive'⟩
  · exact current
  · exact absurd (fresh binding found' alive') stale

theorem settles_of_same (coherent : later.Coherent)
    (same : state.store.SameData later.store)
    (bindings : ∀ id binding, later.binding? id = some binding → later.isAlive id = true →
      binding.Current tolerant later.store ∨
        state.binding? id = some binding ∧ state.isAlive id = true) :
    state.Settles tolerant later where
  kept := by
    intro place registry attached
    rw [same.registryAt]
    exact attached
  bindings := by
    intro id binding found alive
    rcases bindings id binding found alive with current | ⟨before, living⟩
    · exact .inl current
    · by_cases current : binding.Current tolerant state.store
      · exact .inl (current.sameData ((coherent.exact id).plain binding found) same)
      · exact .inr ⟨current, before, living⟩

/-- Callers have control over data on which a root is reactive, and all bindings are
about this root. -/
structure Rooted (root : RecordId) (state : State κ σ) : Prop where
  coherent : state.Coherent
  grounded : state.store.Grounded root
  rooted : ∀ id binding, state.binding? id = some binding → binding.context.data = root

theorem reads_subset_evaluated (data : Store) {registry : RegistryId}
    (read : registry ∈ data.tracked (binding.account data).glimpses) :
    registry ∈ (binding.evaluated data).subscriptions := by
  have among : registry ∈ binding.reads data := List.mem_eraseDups.mpr read
  rw [Binding.mem_subscriptions_evaluated]
  refine ⟨?_, .inr among⟩
  unfold Binding.stale
  split
  · simp [among]
  · exact List.not_mem_nil

theorem current_attempted (plain : binding.Plain) (found : state.binding? id = some binding)
    (errors : ∀ error, (binding.account state.store).outcome = .error error → tolerant) :
    ∃ after, (state.attempted id binding).binding? id = some after ∧
      after.context = binding.context ∧
      after.Current tolerant (state.attempted id binding).store := by
  have same := sameData_evaluated found
  have here : (state.evaluated id binding).binding? id = some (binding.evaluated state.store) := by
    rw [binding?_evaluated found, if_pos rfl]
  have account := binding.account_sameData plain.1 same
  -- the data are those of before, so the reads are those that were subscribed to
  have covered : ∀ registry ∈ (state.evaluated id binding).store.tracked
      (binding.account state.store).glimpses,
      registry ∈ (binding.evaluated state.store).subscriptions := by
    intro registry read
    rw [same.tracked] at read
    exact reads_subset_evaluated _ read
  have evaluation : (binding.evaluated state.store).latest =
      some ⟨state.store, binding.subscriptions, (binding.account state.store).outcome⟩ := rfl
  cases ended : (binding.account state.store).outcome with
  | ok value =>
      rw [attempted_of_ok ended]
      refine ⟨{ binding.evaluated state.store with handed := some value }, ?_, rfl, _, evaluation,
        ?_, ?_, ?_, ?_⟩
      · rw [hand, binding?_changeBinding, if_pos rfl, here]
        rfl
      · exact congrArg Account.outcome account.symm
      · intro other same
        rw [ended] at same
        cases same
        rfl
      · exact errors
      · change ∀ registry ∈ (state.evaluated id binding).store.tracked
          (binding.account (state.evaluated id binding).store).glimpses, _
        rw [account]
        exact covered
  | error error =>
      rw [attempted_of_error ended]
      refine ⟨binding.evaluated state.store, here, rfl, _, evaluation, ?_, ?_, ?_, ?_⟩
      · exact congrArg Account.outcome account.symm
      · intro other same
        rw [ended] at same
        cases same
      · exact errors
      · change ∀ registry ∈ (state.evaluated id binding).store.tracked
          (binding.account (state.evaluated id binding).store).glimpses, _
        rw [account]
        exact covered

theorem sameButFor_attempted (found : state.binding? id = some binding) :
    state.SameButFor id (state.attempted id binding) := by
  have evaluated := sameButFor_evaluated found
  unfold State.attempted
  split
  · exact evaluated.trans (sameButFor_changeBinding _ id _)
  · exact evaluated

end State

/-- Freshness is kept up: whatever has its turn is current afterwards. -/
def Conduct.freshness (κ σ : Type) (root : RecordId) (tolerant : Prop) : Conduct κ σ where
  holds := State.Rooted root
  related := State.Settles tolerant
  admits := fun binding => binding.context.data = root
  settled := State.Fresh tolerant
  tolerant := tolerant
  coherent := State.Rooted.coherent
  admitted := fun holds found => holds.rooted _ _ found
  same := by
    intro state later core holds
    have coherent := holds.coherent.sameCore core
    refine ⟨⟨coherent, core.store ▸ holds.grounded, ?_⟩, ?_⟩
    · intro id binding found
      rw [core.binding?] at found
      exact holds.rooted id binding found
    · apply State.settles_of_same coherent (core.store ▸ Store.SameData.refl _)
      intro id binding found living
      rw [core.binding?] at found
      rw [core.isAlive] at living
      exact .inr ⟨found, living⟩
  trans := State.Settles.trans
  remains := State.Settles.fresh
  attempts := by
    intro id binding state start holds same idle linked found alive admitted errors
    have coherent := holds.coherent.attempted same linked found alive
    have whole := same.trans (State.sameButFor_attempted found)
    obtain ⟨after, here, context, current⟩ :=
      State.current_attempted (linked.plain binding found) found errors
    refine ⟨⟨coherent, holds.grounded.sameData whole.data, ?_⟩, ?_, ?_⟩
    · intro other held present
      by_cases differs : other = id
      · subst differs
        cases here.symm.trans present
        rw [context]
        exact admitted
      · rw [whole.binding? differs] at present
        exact holds.rooted other held present
    · apply State.settles_of_same coherent whole.data
      intro other held present living
      by_cases differs : other = id
      · subst differs
        cases here.symm.trans present
        exact .inl current
      · rw [whole.binding? differs] at present
        rw [whole.isAlive differs] at living
        exact .inr ⟨present, living⟩
    · intro held present _
      cases here.symm.trans present
      exact current
  releases := by
    intro state change id releases holds
    have coherent := holds.coherent.release id releases
    have same := State.sameButFor_release state id change
    refine ⟨⟨coherent, holds.grounded.sameData same.data, ?_⟩, ?_⟩
    · intro other binding found
      obtain ⟨before, present, context⟩ := State.context_release releases found
      rw [context]
      exact holds.rooted other before present
    · apply State.settles_of_same coherent same.data
      intro other binding found alive
      rw [State.binding?_release_of_alive releases alive] at found
      exact .inr ⟨found, State.isAlive_of_release releases alive⟩
  left := by
    intro id registry state later holds holds' settles before after binding found alive
    rcases settles.bindings id binding found alive with current | ⟨-, found', -⟩
    · exact current
    · -- untouched, it would still be in the registry
      obtain ⟨binding', present, subscribed⟩ :=
        ((holds.coherent.exact id).joined registry).mp before
      cases found'.symm.trans present
      exact absurd (((holds'.coherent.exact id).joined registry).mpr
        ⟨binding, found, subscribed⟩) after

/-- Data that nobody depends on yet, with a root in them. -/
structure Store.Pristine (store : Store) (root : RecordId) : Prop where
  closed : store.Closed
  there : store.Has (.record root)
  ranged : store.Ranged
  unobserved : ∀ registry, store.subscribers registry = []

/-- A record of scalars alone. -/
theorem Store.pristine_newRecord {fields : List (String × Value)}
    (scalars : ∀ field ∈ fields, field.2.container? = none) :
    (Store.empty.newRecord fields).2.Pristine ⟨0⟩ := by
  refine ⟨?_, Nat.zero_lt_one, Store.ranged_newRecord Store.ranged_empty fields, fun _ => rfl⟩
  intro place slot found container holds
  rcases Store.slot?_newRecord found with impossible | ⟨-, field, member, rfl⟩
  · rw [Store.slot?_empty] at impossible
    cases impossible
  · have scalar := scalars field member
    change field.2.container? = some container at holds
    rw [scalar] at holds
    cases holds

def State.instrumented {κ σ : Type} (store : Store) (root : RecordId) (host : σ) : State κ σ :=
  { State.initial host with store := store.instrument root }

theorem rooted_instrumented {κ σ : Type} {root : RecordId} {store : Store}
    (pristine : store.Pristine root) (host : σ) :
    (State.instrumented store root host : State κ σ).Rooted root := by
  have instruments : store.Instruments (store.instrument root) :=
    Store.instruments_instrumentFrom store _
  refine ⟨?_, Store.grounded_instrument pristine.closed pristine.there, ?_⟩
  · apply State.coherent_of_store (instruments.ranged pristine.ranged)
    intro registry
    rw [instruments.subscribers, pristine.unobserved]
  · intro id binding impossible
    cases impossible

namespace Store

def knows (store : Store) : Value → Bool
  | .record record => record.index < store.records.size
  | .list list => list.index < store.lists.size
  | _ => true

theorem within_of_knows {store : Store} {value : Value} (known : store.knows value = true) :
    value.Within store.Has := by
  intro container holds
  cases value with
  | record record =>
      cases holds
      have bound : record.index < store.records.size := of_decide_eq_true known
      exact bound
  | list list =>
      cases holds
      have bound : list.index < store.lists.size := of_decide_eq_true known
      exact bound
  | _ => cases holds

theorem closed_of_known {store : Store}
    (known : ∀ container ∈ store.containers, ∀ slot ∈ store.slots container,
      store.knows slot.value = true) : store.Closed := by
  intro place slot found
  have member : slot ∈ store.slots place.container := mem_slots_iff.mpr ⟨place, rfl, found⟩
  have full : (store.slots place.container).length ≠ 0 :=
    Nat.ne_of_gt (List.length_pos_of_mem member)
  exact within_of_knows (known _ (mem_containers_of_slots full) slot member)

end Store

namespace Command

variable {κ σ : Type}

/-- Commands that make containers of values there are, bind formulas that call no
method to a root, run or drop bindings, and write to fields that are there and reactive. -/
def admitted (root : RecordId) (state : State κ σ) : {β : Type} → Command κ β → Bool
  | _, .newRecord fields => fields.all (fun field => state.store.knows field.2)
  | _, .newList items => items.all state.store.knows
  | _, .write (.field record key) value =>
      (state.store.registryAt (.field record key)).isSome && state.store.knows value
  | _, .bind _ formula context _ => context.data = root && formula.callsNone context.methods
  | _, .read _ | _, .drop _ | _, .reevaluate _ => true
  | _, _ => false

def writes : {β : Type} → Command κ β → Except Error β → List (Place × Except Error Unit)
  | _, .write place _, outcome => [(place, outcome)]
  | _, _, _ => []

end Command

namespace State

variable {κ σ : Type} {tolerant : Prop} {root : RecordId} {state later : State κ σ}

theorem Rooted.changeStore (holds : state.Rooted root) {change : Store → Store}
    (ranged : (change state.store).Ranged)
    (same : ∀ registry, (change state.store).subscribers registry =
      state.store.subscribers registry)
    (grounded : (change state.store).Grounded root) :
    (state.changeStore change).Rooted root :=
  ⟨holds.coherent.changeStore ranged same, grounded, holds.rooted⟩

theorem Rooted.newRecord (holds : state.Rooted root) {fields : List (String × Value)}
    (inside : ∀ field ∈ fields, field.2.Within state.store.Has) :
    (state.changeStore (fun store => (store.newRecord fields).2)).Rooted root :=
  holds.changeStore (Store.ranged_newRecord holds.coherent.ranged fields) (fun _ => rfl)
    (holds.grounded.newRecord inside)

theorem Rooted.newList (holds : state.Rooted root) {items : List Value}
    (inside : ∀ value ∈ items, value.Within state.store.Has) :
    (state.changeStore (fun store => (store.newList items).2)).Rooted root :=
  holds.changeStore (Store.ranged_newList holds.coherent.ranged items) (fun _ => rfl)
    (holds.grounded.newList inside)

theorem Rooted.grounded_context (holds : state.Rooted root) {id : SubscriberId}
    {binding : Binding κ} (found : state.binding? id = some binding) :
    state.store.Grounded binding.context.data := by
  rw [holds.rooted id binding found]
  exact holds.grounded

theorem Rooted.settles_changeStore (holds : state.Rooted root) {change : Store → Store}
    (continues : state.store.Continues (change state.store) (fun _ => False)) :
    state.Settles tolerant (state.changeStore change) where
  kept := continues.kept
  bindings := by
    intro id binding found alive
    by_cases current : binding.Current tolerant state.store
    · left
      apply current.continues ((holds.coherent.exact id).plain binding found)
        (holds.grounded_context found) continues
      intro _ impossible
      exact impossible.elim
    · exact .inr ⟨current, found, alive⟩

section Overwrite

variable {record : RecordId} {key : String} {registry : RegistryId} {value : Value}

theorem Rooted.overwrite (holds : state.Rooted root)
    (attached : state.store.registryAt (.field record key) = some registry)
    (inside : value.Within state.store.Has) :
    (state.changeStore
      (fun store => store.overwrite (.field record key) value registry)).Rooted root :=
  holds.changeStore (Store.ranged_overwrite holds.coherent.ranged attached value)
    (Store.subscribers_overwrite _ _ _ _) (holds.grounded.overwrite attached inside)

/-- After a write and what follows it, a binding that is not current was so before, or it
depends on the field and has not been touched. -/
theorem Settles.overwrite (holds : state.Rooted root)
    (attached : state.store.registryAt (.field record key) = some registry)
    (settles : (state.changeStore
      (fun store => store.overwrite (.field record key) value registry)).Settles tolerant later)
    {id : SubscriberId} {binding : Binding κ} (found : later.binding? id = some binding)
    (alive : later.isAlive id = true) :
    binding.Current tolerant later.store ∨
      state.binding? id = some binding ∧ state.isAlive id = true ∧
        (registry ∈ binding.subscriptions ∨ ¬ binding.Current tolerant state.store) := by
  rcases settles.bindings id binding found alive with current | ⟨stale, before, living⟩
  · exact .inl current
  · refine .inr ⟨before, living, ?_⟩
    by_cases subscribed : registry ∈ binding.subscriptions
    · exact .inl subscribed
    · right
      intro current
      apply stale
      apply current.continues ((holds.coherent.exact id).plain binding before)
        (holds.grounded_context before) (Store.continues_overwrite attached value)
      rintro place rfl
      exact ⟨registry, attached, subscribed⟩

end Overwrite

end State

namespace Engine

variable {κ σ : Type} {tolerant : Prop} {root : RecordId} {state : State κ σ}
  {invoke : Invoke κ σ}

/-- A write that ends well leaves no binding behind that it did not find behind. -/
theorem fresh_write (strict : ¬ tolerant)
    (keeps : (Conduct.freshness κ σ root tolerant).Keeps invoke) (holds : state.Rooted root)
    {record : RecordId} {key : String} {value : Value}
    (reactive : (state.store.registryAt (.field record key)).isSome)
    (inside : value.Within state.store.Has) :
    (Conduct.freshness κ σ root tolerant).Meets state (fun _ _ => True)
      (write invoke (.field record key) value state) := by
  obtain ⟨registry, attached⟩ := Option.isSome_iff_exists.mp reactive
  obtain ⟨old, found⟩ := Store.slot?_of_registryAt attached
  have between := holds.overwrite attached inside
  have pass := meets_notifyAll keeps between registry
  rw [write_of_reactive found]
  cases ended : notifyAll invoke registry (state.changeStore
      (fun store => store.overwrite (.field record key) value registry)) with
  | stopped later => exact fun impossible => (strict impossible).elim
  | ended outcome later =>
      rw [ended] at pass
      cases outcome with
      | error error => exact fun impossible => (strict impossible).elim
      | ok result =>
          obtain ⟨holds', settles, turns⟩ := pass
          refine ⟨holds', ⟨?_, ?_⟩, trivial⟩
          · intro place other attached'
            exact settles.kept place other
              ((Store.continues_overwrite attached value).kept place other attached')
          · intro id binding present alive
            rcases settles.overwrite holds attached present alive with
              current | ⟨before, living, subscribed | stale⟩
            · exact .inl current
            · have member := ((between.coherent.exact id).joined registry).mpr
                ⟨binding, before, subscribed⟩
              exact .inl (turns id member binding present alive)
            · exact .inr ⟨stale, before, living⟩

theorem fresh_perform (depth : Nat) (keeps : (Conduct.freshness κ σ root tolerant).Keeps invoke)
    (holds : state.Rooted root) {β : Type} (command : Command κ β)
    (admitted : command.admitted root state = true)
    (silent : ∀ outcome, command.writes outcome = []) :
    (Conduct.freshness κ σ root tolerant).Meets state (fun _ _ => True)
      (command.perform invoke depth state) := by
  cases command with
  | newRecord fields =>
      have changed : (state.changeStore (fun store => (store.newRecord fields).2)).Rooted root :=
        holds.newRecord fun field member =>
          Store.within_of_knows (List.all_eq_true.mp admitted field member)
      have settles : state.Settles tolerant
          (state.changeStore (fun store => (store.newRecord fields).2)) :=
        holds.settles_changeStore (Store.continues_newRecord _ fields)
      exact ⟨changed, settles, trivial⟩
  | newList items =>
      have changed : (state.changeStore (fun store => (store.newList items).2)).Rooted root :=
        holds.newList fun value member =>
          Store.within_of_knows (List.all_eq_true.mp admitted value member)
      have settles : state.Settles tolerant
          (state.changeStore (fun store => (store.newList items).2)) :=
        holds.settles_changeStore (Store.continues_newList _ items)
      exact ⟨changed, settles, trivial⟩
  | read place =>
      have run : (Command.read place : Command κ (Option Value)).perform invoke depth state =
          .ended (.ok (state.read place).1) state := perform_read depth place holds.coherent.idle
      rw [run]
      exact Conduct.meets_pure holds trivial
  | write place value => cases silent (.ok ())
  | drop subscriber => exact meets_drop holds subscriber
  | reevaluate binding => exact meets_reevaluate keeps holds binding
  | bind source formula context body =>
      obtain ⟨rooted, plain⟩ := Bool.and_eq_true_iff.mp admitted
      have about : context.data = root := of_decide_eq_true rooted
      exact meets_bindFormula (keeps.suits (.code body)) holds source plain about
  | _ => cases admitted

end Engine

end ReactiveView
