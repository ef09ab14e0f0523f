import ReactiveView.Proofs.Bracketing

/-!
# Evaluations that suspend an evaluation

While an evaluation of a binding is suspended, writes may run other bindings, and the
binding itself. As long as no other evaluation of it succeeds, it stays in the registries
that it has joined, and ends up in all that its evaluation has read.
-/

namespace ReactiveView

set_option autoImplicit false

variable {κ σ α : Type}

namespace State

/-- How many runs of a subscriber are under way. -/
def underWay (state : State κ σ) (id : SubscriberId) : Nat :=
  ((state.subscriber? id).map Subscriber.underWay).getD 0

/-- What becomes of a subscriber in any run: as many runs of it are under way as before,
and a binding stays one. -/
structure Carries (id : SubscriberId) (state later : State κ σ) : Prop where
  underWay : later.underWay id = state.underWay id
  present : (state.binding? id).isSome → (later.binding? id).isSome
  ranged : state.store.Ranged → later.store.Ranged

def Stays (id : SubscriberId) (state later : State κ σ) : Prop :=
  ∀ registry, id ∈ state.store.subscribers registry → id ∈ later.store.subscribers registry

variable {id other : SubscriberId} {state later final : State κ σ} {spared : SubscriberId → Prop}

theorem Carries.trans (first : Carries id state later) (second : Carries id later final) :
    Carries id state final where
  underWay := second.underWay.trans first.underWay
  present := fun present => second.present (first.present present)
  ranged := fun ranged => second.ranged (first.ranged ranged)

theorem Stays.trans (first : Stays id state later) (second : Stays id later final) :
    Stays id state final :=
  fun registry member => second registry (first registry member)

theorem carries_of_same (subscribers : later.subscribers = state.subscribers)
    (ranged : state.store.Ranged → later.store.Ranged) : Carries id state later := by
  have same : later.subscriber? id = state.subscriber? id := by
    simp only [subscriber?, subscribers]
  refine ⟨?_, ?_, ranged⟩
  · simp only [State.underWay, same]
  · simp only [binding?, same]
    exact fun present => present

theorem SameButFor.ranged (same : state.SameButFor other later) (ranged : state.store.Ranged) :
    later.store.Ranged :=
  same.data.ranged same.size ranged

theorem SameButFor.carries (same : state.SameButFor other later) (differs : id ≠ other) :
    Carries id state later where
  underWay := by simp only [State.underWay, same.others id differs]
  present := by
    rw [same.binding? differs]
    exact fun present => present
  ranged := same.ranged

theorem SameButFor.stays (same : state.SameButFor other later) (differs : id ≠ other) :
    Stays id state later :=
  fun registry member => (same.members id differs registry).mpr member

theorem underWay_changeSubscriber (change : Subscriber κ → Subscriber κ) :
    (state.changeSubscriber id change).underWay id =
      ((state.subscriber? id).map (fun subscriber => (change subscriber).underWay)).getD 0 := by
  simp only [underWay, subscriber?_changeSubscriber, if_true, Option.map_map, Function.comp_def]

theorem isAlive_of_underWay (running : 0 < state.underWay id) : state.isAlive id = true := by
  unfold underWay at running
  unfold isAlive
  cases found : state.subscriber? id with
  | none => simp [found] at running
  | some subscriber =>
      have positive : 0 < subscriber.underWay := by simpa [found] using running
      simp [Subscriber.isAlive, Nat.ne_of_gt positive]

theorem underWay_changeBinding (change : Binding κ → Binding κ) :
    (state.changeBinding other change).underWay id = state.underWay id := by
  by_cases same : id = other
  · subst same
    rw [changeBinding, underWay_changeSubscriber]
    unfold underWay
    cases state.subscriber? id with
    | none => rfl
    | some subscriber =>
        obtain ⟨role, held, running⟩ := subscriber
        cases role <;> rfl
  · simp only [underWay, (sameButFor_changeBinding state other change).others id same]

theorem carries_changeBinding (change : Binding κ → Binding κ) :
    Carries id state (state.changeBinding other change) where
  underWay := underWay_changeBinding change
  present := by
    rw [binding?_changeBinding]
    split
    · next same => simp [same]
    · exact fun present => present
  ranged := (sameButFor_changeBinding state other change).ranged

theorem underWay_settle : (state.settle other).underWay id = state.underWay id := by
  cases found : state.binding? other with
  | none => rw [settle_of_none found]
  | some binding =>
      cases alive : state.isAlive other with
      | true => rw [settle_of_alive alive]
      | false =>
          rw [settle_of_gone found alive, underWay_changeBinding]
          rfl

theorem present_settle (present : (state.binding? id).isSome) :
    ((state.settle other).binding? id).isSome := by
  cases found : state.binding? other with
  | none =>
      rw [settle_of_none found]
      exact present
  | some binding =>
      cases alive : state.isAlive other with
      | true =>
          rw [settle_of_alive alive]
          exact present
      | false =>
          rw [settle_of_gone found alive]
          exact (carries_changeBinding _).present present

theorem carries_drop : Carries id state (state.drop other) where
  underWay := by
    rw [drop, underWay_settle]
    by_cases same : id = other
    · subst same
      rw [underWay_changeSubscriber]
      rfl
    · simp only [underWay, (sameButFor_changeSubscriber state other _).others id same]
  present := by
    intro present
    apply present_settle
    rwa [binding?_changeSubscriber state other releases_drop.role id]
  ranged := (sameButFor_release state other _).ranged

/-- One of which a run is under way stays where it is when it is dropped. -/
theorem stays_drop (running : 0 < state.underWay id) : Stays id state (state.drop other) := by
  by_cases same : id = other
  · subst same
    have still : 0 < (state.changeSubscriber id (fun subscriber =>
        { subscriber with held := false })).underWay id := by
      rw [underWay_changeSubscriber]
      exact running
    rw [drop, settle_of_alive (isAlive_of_underWay still)]
    exact fun _ member => member
  · exact (sameButFor_release state other _).stays same

theorem Step.carries (step : state.Step spared later) : Carries id state later := by
  cases step with
  | data store same ranged => exact carries_of_same rfl ranged
  | outside => exact carries_of_same rfl (fun ranged => ranged)
  | added role =>
      have same := sameButFor_addSubscriber state ⟨role, true, 0⟩
      by_cases new : id = ⟨state.subscribers.size⟩
      · subst new
        have absent : state.subscriber? ⟨state.subscribers.size⟩ = none :=
          Array.getElem?_size
        refine ⟨?_, ?_, same.ranged⟩
        · simp only [State.underWay, subscriber?_addSubscriber, absent]
          rfl
        · simp only [binding?, absent]
          intro impossible
          cases impossible
      · exact same.carries new
  | handed other value => exact carries_changeBinding _
  | joined registry other =>
      exact carries_of_same rfl (Store.SameData.ranged
        (Store.sameData_register state.store registry other)
        (Store.size_register state.store registry other))
  | left registry other =>
      exact carries_of_same rfl (sameButFor_unregisterAll state other [registry]).ranged
  | dropped other => exact carries_drop

theorem Step.stays (step : state.Step spared later) (member : spared id)
    (running : 0 < state.underWay id) : Stays id state later := by
  cases step with
  | data store same => exact fun registry joined => by rwa [same registry]
  | outside => exact fun _ joined => joined
  | added => exact fun _ joined => joined
  | handed => exact fun _ joined => joined
  | joined registry other =>
      intro place joined
      change id ∈ (state.store.register registry other).subscribers place
      rcases Store.subscribers_register_cases state.store registry other place with
        same | ⟨-, grown⟩
      · rwa [same]
      · rw [grown]
        exact List.mem_append_left _ joined
  | left registry other open' =>
      have differs : id ≠ other := fun same => open' (same ▸ member)
      exact (sameButFor_unregisterAll state other [registry]).stays differs
  | dropped other => exact stays_drop running

theorem Moves.carries (moves : state.Moves spared later) : Carries id state later := by
  induction moves with
  | refl => exact carries_of_same rfl (fun ranged => ranged)
  | tail _ step induction => exact induction.trans step.carries

theorem Moves.stays (moves : state.Moves spared later) (member : spared id)
    (running : 0 < state.underWay id) : Stays id state later := by
  induction moves with
  | refl => exact fun _ joined => joined
  | tail before step induction =>
      have counted := (Moves.carries before : Carries id state _).underWay
      exact induction.trans (step.stays member (counted ▸ running))

theorem carries_read (place : Place) : Carries id state (state.read place).2 := by
  unfold read
  split
  · exact carries_of_same rfl (fun ranged => ranged)
  · exact carries_of_same rfl (fun ranged => ranged)
  · next registry _ =>
      have same := sameBindings_track state registry
      exact carries_of_same same.subscribers (same.data.ranged same.size)

theorem stays_read (place : Place) : Stays id state (state.read place).2 := by
  unfold read
  split
  · exact fun _ joined => joined
  · exact fun _ joined => joined
  · next registry _ =>
      intro other joined
      change id ∈ (state.track registry).store.subscribers other
      cases observed : state.observer with
      | none => simpa only [track, observed] using joined
      | some observer =>
          rcases subscribers_track_cases observed registry other with same | ⟨-, grown⟩
          · rwa [same]
          · rw [grown]
            exact List.mem_append_left _ joined

theorem running_enter (running : 0 < state.underWay id) :
    0 < (state.enter other).underWay id := by
  by_cases same : id = other
  · subst same
    rw [enter, underWay_changeSubscriber]
    unfold underWay at running
    cases found : state.subscriber? id with
    | none => simp [found] at running
    | some subscriber => exact Nat.succ_pos _
  · have unchanged := (sameButFor_changeSubscriber state other (fun subscriber =>
      { subscriber with underWay := subscriber.underWay + 1 })).others id same
    simp only [underWay, enter, unchanged]
    exact running

theorem underWay_leave : (state.leave id).underWay id = state.underWay id - 1 := by
  rw [leave, underWay_settle, underWay_changeSubscriber]
  unfold underWay
  cases state.subscriber? id <;> rfl

theorem Carries.left (inner : Carries id (state.enter other) later) :
    Carries id state (later.leave other) where
  underWay := by
    by_cases same : id = other
    · subst same
      rw [underWay_leave, inner.underWay, enter, underWay_changeSubscriber]
      unfold State.underWay
      cases state.subscriber? id <;> rfl
    · have before := (sameButFor_changeSubscriber state other (fun subscriber =>
        { subscriber with underWay := subscriber.underWay + 1 })).carries same
      have after := (sameButFor_release later other (fun subscriber =>
        { subscriber with underWay := subscriber.underWay - 1 })).carries same
      exact (before.trans (inner.trans after)).underWay
  present := by
    intro present
    apply present_settle
    rw [binding?_changeSubscriber later other releases_leave.role id]
    apply inner.present
    rwa [binding?_enter]
  ranged := fun ranged => (sameButFor_release later other _).ranged (inner.ranged ranged)

theorem stays_leave (running : 0 < (state.leave other).underWay id) :
    Stays id state (state.leave other) := by
  by_cases same : id = other
  · subst same
    have still : 0 < (state.changeSubscriber id (fun subscriber =>
        { subscriber with underWay := subscriber.underWay - 1 })).underWay id := by
      rwa [leave, underWay_settle] at running
    rw [leave, settle_of_alive (isAlive_of_underWay still)]
    exact fun _ joined => joined
  · exact (sameButFor_release state other _).stays same

theorem carries_reconcile (reads : List RegistryId) (data : Store)
    (outcome : Except Error Value) :
    Carries id state (state.reconcile other reads data outcome) := by
  have left (stale : List RegistryId) :
      Carries id state (state.changeStore (·.unregisterAll stale other)) :=
    carries_of_same rfl (sameButFor_unregisterAll state other stale).ranged
  unfold reconcile
  split
  · exact carries_of_same rfl (fun ranged => ranged)
  · exact (left _).trans (carries_changeBinding _)
  · exact carries_changeBinding _

theorem stays_reconcile (reads : List RegistryId) (data : Store)
    {outcome : Except Error Value} (admitted : id = other → ∃ error, outcome = .error error) :
    Stays id state (state.reconcile other reads data outcome) := by
  by_cases same : id = other
  · obtain ⟨error, rfl⟩ := admitted same
    intro registry joined
    cases found : state.binding? other with
    | none => simpa only [reconcile, found] using joined
    | some binding =>
        simp only [reconcile, found]
        exact joined
  · exact (sameButFor_reconcile reads data outcome).stays same

end State

namespace Engine.Runs

variable {spared : SubscriberId → Prop} {body : Engine κ σ α} {state later : State κ σ}
  {reads : List RegistryId} {outcome : Except Error α} {id : SubscriberId}

theorem carries (runs : Runs spared body state reads outcome later) :
    State.Carries id state later := by
  induction runs with
  | changed moves => exact State.Moves.carries moves
  | failed => exact State.carries_of_same rfl (fun ranged => ranged)
  | read place => exact State.carries_read place
  | bind _ _ first second => exact first.trans second
  | broken _ _ first => exact first
  | attempt _ inner => exact inner
  | running other _ inner => exact inner.left
  | untracked _ inner => exact ⟨inner.underWay, inner.present, inner.ranged⟩
  | refused => exact State.carries_of_same rfl (fun ranged => ranged)
  | @evaluated _ _ _ state final _ _ _ _ _ inner =>
      have before : State.Carries id state { final with observer := none } :=
        ⟨inner.underWay, inner.present, inner.ranged⟩
      exact before.trans (State.carries_reconcile _ _ _)

theorem stays (runs : Runs spared body state reads outcome later) (member : spared id)
    (running : 0 < state.underWay id) : State.Stays id state later := by
  induction runs with
  | changed moves => exact State.Moves.stays moves member running
  | failed => exact fun _ joined => joined
  | read place => exact State.stays_read place
  | bind here _ first second =>
      have counted := (here.carries : State.Carries id _ _).underWay
      exact (first running).trans (second (counted ▸ running))
  | broken _ _ first => exact first running
  | attempt _ inner => exact inner running
  | @running _ other _ state later _ _ here inner =>
      have inside : State.Stays id state later := inner (State.running_enter running)
      have carried : State.Carries id state (later.leave other) := here.carries.left
      exact inside.trans (State.stays_leave (carried.underWay ▸ running))
  | untracked _ inner => exact inner running
  | refused => exact fun _ joined => joined
  | @evaluated _ other _ state final _ outcome _ admitted _ inner =>
      have before : State.Stays id state { final with observer := none } := inner running
      have admitted' (same : id = other) : ∃ error, outcome = .error error :=
        admitted (same ▸ member)
      exact before.trans (State.stays_reconcile _ _ admitted')

end Engine.Runs

namespace State

variable {id : SubscriberId} {state later : State κ σ}

/-- As long as it observes, a subscriber is in all registries that it has read. -/
def Collected (id : SubscriberId) (state : State κ σ) : Prop :=
  ∀ reads, state.observer = some ⟨id, reads⟩ →
    ∀ registry ∈ reads, id ∈ state.store.subscribers registry

theorem Collected.of_stays (collected : Collected id state)
    (same : later.observer = state.observer) (stays : Stays id state later) :
    Collected id later :=
  fun reads observed registry member =>
    stays registry (collected reads (same ▸ observed) registry member)

theorem collected_track (collected : Collected id state) {registry : RegistryId}
    (there : registry.index < state.store.registries.size) :
    Collected id (state.track registry) := by
  intro reads' observed' other member
  cases observed : state.observer with
  | none => simp [track, observed] at observed'
  | some observer =>
      obtain ⟨subscriber, reads⟩ := observer
      have seen := (observer_track observed registry).symm.trans observed'
      have same : subscriber = id := by
        have kept := Observer.subscriber_see ⟨subscriber, reads⟩ registry
        rw [Option.some.inj seen] at kept
        exact kept.symm
      subst same
      have among : other ∈ (Observer.see ⟨subscriber, reads⟩ registry).reads := by
        rw [Option.some.inj seen]
        exact member
      rw [subscribers_track observed there]
      split
      · exact List.mem_append_right _ List.mem_cons_self
      · next kept =>
          rcases Observer.mem_reads_see.mp among with before | rfl
          · exact collected reads observed other before
          · by_cases read : other ∈ reads
            · exact collected reads observed other read
            · by_contra apart
              exact kept ⟨rfl, read, apart⟩

theorem collected_read (collected : Collected id state) (ranged : state.store.Ranged)
    (place : Place) : Collected id (state.read place).2 := by
  unfold read
  split
  · exact collected
  · exact collected
  · next value registry found =>
      have attached : state.store.registryAt place = some registry := by
        simp only [Store.registryAt, found, Option.bind_some]
      exact collected_track collected (ranged place registry attached)

/-- After an evaluation that succeeded, a binding is where it was in what it has read. -/
theorem reconciled {binding : Binding κ} (found : state.binding? id = some binding)
    (reads : List RegistryId) (data : Store) (value : Value) :
    ∃ after, (state.reconcile id reads data (.ok value)).binding? id = some after ∧
      after.subscriptions = reads ∧
      ∀ registry ∈ reads, id ∈ state.store.subscribers registry →
        id ∈ (state.reconcile id reads data (.ok value)).store.subscribers registry := by
  have found' (stale : List RegistryId) :
      (state.changeStore (·.unregisterAll stale id)).binding? id = some binding := found
  simp only [reconcile, found, binding?_changeBinding, if_true, found', Option.map_some]
  refine ⟨_, rfl, rfl, ?_⟩
  intro registry read joined
  change id ∈ (state.store.unregisterAll _ id).subscribers registry
  rw [Store.subscribers_unregisterAll]
  have fresh : registry ∉ binding.subscriptions.filter (· ∉ reads) := by
    simp [read]
  rw [if_neg fresh]
  exact joined

end State

namespace Engine

/-- Whoever is spared is, in its own evaluation, in all that it has read, although writes
in between run what they concern. -/
theorem Runs.collected {spared : SubscriberId → Prop} {body : Engine κ σ α}
    {state later : State κ σ} {reads : List RegistryId} {outcome : Except Error α}
    {id : SubscriberId} (runs : Runs spared body state reads outcome later) (member : spared id)
    (running : 0 < state.underWay id) (ranged : state.store.Ranged)
    (collected : state.Collected id) : later.Collected id := by
  induction runs with
  | changed moves =>
      exact collected.of_stays (State.Moves.observer moves)
        (State.Moves.stays moves member running)
  | failed => exact collected
  | read place => exact State.collected_read collected ranged place
  | bind here _ first second =>
      have carried : State.Carries id _ _ := here.carries
      exact second (carried.underWay ▸ running) (carried.ranged ranged)
        (first running ranged collected)
  | broken _ _ first => exact first running ranged collected
  | attempt _ inner => exact inner running ranged collected
  | @running _ other _ state later _ _ here inner =>
      have inside := inner (State.running_enter running) ranged collected
      have carried : State.Carries id state (later.leave other) := here.carries.left
      exact inside.of_stays (State.observer_leave later other)
        (State.stays_leave (carried.underWay ▸ running))
  | untracked here _ =>
      exact collected.of_stays rfl ((Runs.untracked here).stays member running)
  | refused => exact collected
  | evaluated =>
      intro reads observed
      rw [State.observer_reconcile] at observed
      cases observed

end Engine

namespace Engine

section

variable {spared : SubscriberId → Prop} {invoke : Invoke κ σ} {state later : State κ σ}
  {context : Context κ} {name : String}

theorem runs_look (view : State κ σ → α) :
    Runs spared (look view) state [] (.ok (view state)) state := by
  let change : State κ σ → α × State κ σ := fun state => (view state, state)
  have unchanged : Runs spared (transform change) state [] (.ok (change state).1)
      (change state).2 :=
    .changed .refl
  exact unchanged

theorem runs_pure (value : α) : Runs spared (pure value) state [] (.ok value) state :=
  runs_look (fun _ => value)

theorem runs_after_look {β : Type} {view : State κ σ → α} {next : α → Engine κ σ β}
    {reads : List RegistryId} {outcome : Except Error β}
    (run : Runs spared (next (view state)) state reads outcome later) :
    Runs spared (look view >>= next) state reads outcome later :=
  (runs_look view).bind run

theorem runs_readName {slot : Slot}
    (found : state.store.slot? (.field context.data name) = some slot) :
    Runs spared (readName context name) state
      (state.store.registryAt (.field context.data name)).toList (.ok slot.value)
      (state.read (.field context.data name)).2 := by
  have read : Runs spared (transform (State.read (.field context.data name))) state _ _ _ :=
    .read (.field context.data name) state
  have value : (state.read (.field context.data name)).1 = some slot.value := by
    obtain ⟨value, registry⟩ := slot
    cases registry <;> simp [State.read, found]
  rw [value] at read
  have run : Runs spared (readName context name) state
      ((state.store.registryAt (.field context.data name)).toList ++ []) (.ok slot.value)
      (state.read (.field context.data name)).2 :=
    read.bind (runs_pure slot.value)
  rwa [List.append_nil] at run

theorem runs_callName {body : κ} {arguments : List Value} {reads : List RegistryId}
    {outcome : Except Error Value}
    (hidden : (state.store.fields context.data).contains name = false)
    (method : context.methods.find? name = some body)
    (run : Runs spared (invoke body (.called context arguments)) state reads outcome later) :
    Runs spared (callName invoke context name arguments) state reads outcome later := by
  have there : context.methods.contains name = true := by
    simp only [Dictionary.contains, method, Option.isSome_some]
  apply runs_after_look
  simp only [hidden, there, callMethod, method, Bool.false_eq_true, if_false, if_true]
  exact run

theorem runs_write {place : Place} {old : Value} {registry : RegistryId}
    (found : state.store.slot? place = some ⟨old, some registry⟩)
    (alone : state.store.subscribers registry = []) (value : Value) :
    Runs spared (write invoke place value) state [] (.ok ())
      (state.changeStore (fun store => store.overwrite place value registry)) := by
  have attached : state.store.registryAt place = some registry := by
    simp only [Store.registryAt, found, Option.bind_some]
  have moves : state.Moves spared
      (state.changeStore (fun store => store.overwrite place value registry)) :=
    .single (.data _ (Store.subscribers_overwrite _ _ _ _)
      (fun ranged => Store.ranged_overwrite ranged attached value))
  apply runs_after_look
  simp only [found]
  let change : State κ σ → Unit × State κ σ := fun state =>
    ((), state.changeStore (fun store => store.overwrite place value registry))
  have written : Runs spared (transform change) state [] (.ok (change state).1) (change state).2 :=
    .changed moves
  have none : (change state).2.store.subscribers registry = [] :=
    (Store.subscribers_overwrite _ _ _ _ _).trans alone
  apply written.bind
  apply runs_after_look
  rw [none]
  exact runs_pure ()

theorem runs_command {depth : Nat} {β : Type} {command : Command κ β}
    {next : β → Program κ σ α} {between : State κ σ} {reads others : List RegistryId} {value : β}
    {outcome : Except Error α}
    (first : Runs spared (command.perform invoke depth) state reads (.ok value) between)
    (rest : Runs spared ((next value).execute invoke depth) between others outcome later) :
    Runs spared ((Program.run command >>= next).execute invoke depth) state (reads ++ others)
      outcome later := by
  change Runs spared ((Program.perform command (fun outcome =>
    (Program.done outcome).andThen next)).execute invoke depth) state _ _ _
  rw [Program.execute_perform]
  exact first.attempt.bind rest

end

end Engine

/-- One method calls the other one untracked, which writes a field. -/
def turn : String → Occasion String → Program String Unit Value
  | "flip", .called context _ => do
      let _ ← Program.run
        (.evaluateUntracked context (.expression (.call (.identifier "turn") [])))
      pure .null
  | "turn", .called context _ => do
      Program.run (.write (.field context.data "c") (.bool false))
      pure .null
  | _, _ => pure .null

/-- The formula `r && flip()` over fields of which only `r` is read. -/
def poising : Formula :=
  .expression (.logical .and (.identifier "r") (.call (.identifier "flip") []))

def poisingContext : Context String :=
  ⟨⟨0⟩, Dictionary.ofList [("flip", "flip"), ("turn", "turn")]⟩

def poisedBinding : Binding String :=
  ⟨"r && flip()", poising, poisingContext, .code "ignored", [⟨1⟩], none, none⟩

def poised : State String Unit :=
  { State.initial () with
    store := ((Store.empty.newRecord [("c", .bool true), ("r", .bool true)]).2.instrument
      ⟨0⟩).register ⟨1⟩ ⟨0⟩
    subscribers := #[⟨.binding poisedBinding, true, 1⟩] }

theorem ranged_poised : poised.store.Ranged := by
  have record : (Store.empty.newRecord [("c", .bool true), ("r", .bool true)]).2.Ranged :=
    Store.ranged_newRecord Store.ranged_empty _
  have instrumented := (Store.instruments_instrumentFrom _ [.record ⟨0⟩]).ranged record
  exact Store.SameData.ranged (Store.sameData_register _ _ _) (Store.size_register _ _ _)
    instrumented

namespace Engine

section

variable {spared : SubscriberId → Prop} {state : State String Unit} {old : Value}
  {registry : RegistryId} (depth : Nat)

theorem runs_turn (found : state.store.slot? (.field ⟨0⟩ "c") = some ⟨old, some registry⟩)
    (alone : state.store.subscribers registry = []) :
    ∃ later, Runs spared (Program.invoke turn (depth + 1) "turn" (.called poisingContext []))
      state [] (.ok .null) later := by
  have written : Runs spared
      (Command.perform (Program.invoke turn depth) depth
        (.write (.field ⟨0⟩ "c") (.bool false))) state [] (.ok ()) _ :=
    runs_write found alone (.bool false)
  have turned : Runs spared
      ((Program.run (.write (.field ⟨0⟩ "c") (.bool false)) >>= fun _ =>
        (Pure.pure .null : Program String Unit Value)).execute (Program.invoke turn depth) depth)
      state [] (.ok .null) _ :=
    runs_command written (runs_pure Value.null)
  exact ⟨_, turned⟩

theorem runs_flip (found : state.store.slot? (.field ⟨0⟩ "c") = some ⟨old, some registry⟩)
    (alone : state.store.subscribers registry = [])
    (hidden : (state.store.fields ⟨0⟩).contains "turn" = false) :
    ∃ later, Runs spared (Program.invoke turn (depth + 2) "flip" (.called poisingContext []))
      state [] (.ok .null) later := by
  let vacated : State String Unit := { state with observer := none }
  obtain ⟨later, turned⟩ : ∃ later, Runs spared
      (Program.invoke turn (depth + 1) "turn" (.called poisingContext [])) vacated []
      (.ok .null) later :=
    runs_turn depth found alone
  have arguments : Runs spared
      (evaluate.evaluateAll (Program.invoke turn (depth + 1)) poisingContext []) vacated []
      (.ok []) vacated :=
    runs_pure []
  have called : Runs spared
      (callName (Program.invoke turn (depth + 1)) poisingContext "turn" []) vacated []
      (.ok .null) later :=
    runs_callName hidden (by decide +kernel) turned
  have evaluated : Runs spared
      (Command.perform (Program.invoke turn (depth + 1)) (depth + 1)
        (.evaluateUntracked poisingContext (.expression (.call (.identifier "turn") []))))
      state [] (.ok .null) _ :=
    (arguments.bind called).untracked
  have flipped : Runs spared
      ((Program.run
          (.evaluateUntracked poisingContext (.expression (.call (.identifier "turn") []))) >>=
        fun _ => (Pure.pure .null : Program String Unit Value)).execute
          (Program.invoke turn (depth + 1)) (depth + 1)) state [] (.ok .null) _ :=
    runs_command evaluated (runs_pure Value.null)
  exact ⟨_, flipped⟩

end

theorem runs_poised :
    ∃ final, Runs (· = ⟨0⟩) (evaluateFormula (Program.invoke turn 3) poisingContext poising)
      (poised.observing ⟨0⟩) [⟨1⟩] (.ok .null) final := by
  let seen := ((poised.observing ⟨0⟩).read (.field ⟨0⟩ "r")).2
  have found : (poised.observing ⟨0⟩).store.slot? (.field poisingContext.data "r") =
      some ⟨.bool true, some ⟨1⟩⟩ := by decide +kernel
  have read : Runs (· = ⟨0⟩) (readName poisingContext "r") (poised.observing ⟨0⟩)
      ((poised.observing ⟨0⟩).store.registryAt (.field poisingContext.data "r")).toList
      (.ok (.bool true)) seen :=
    runs_readName found
  rw [Store.registryAt, found] at read
  have found' : seen.store.slot? (.field ⟨0⟩ "c") = some ⟨.bool true, some ⟨0⟩⟩ := by
    decide +kernel
  obtain ⟨later, flipped⟩ : ∃ later, Runs (· = ⟨0⟩)
      (Program.invoke turn 3 "flip" (.called poisingContext [])) seen [] (.ok .null) later :=
    runs_flip 1 found' (by decide +kernel) (by decide +kernel)
  have arguments : Runs (· = ⟨0⟩)
      (evaluate.evaluateAll (Program.invoke turn 3) poisingContext []) seen [] (.ok []) seen :=
    runs_pure []
  have called : Runs (· = ⟨0⟩) (callName (Program.invoke turn 3) poisingContext "flip" []) seen
      [] (.ok .null) later :=
    runs_callName (by decide +kernel) (by decide +kernel) flipped
  exact ⟨later, read.bind (arguments.bind called)⟩

end Engine

/-- An evaluation that succeeds makes the binding count what it has read. If in between
nobody takes the binding out of a registry from outside, and no other evaluation of it
succeeds, then it is also registered in all that it counts. -/
theorem evaluation_registers_reads (code : κ → Occasion κ → Program κ σ Value) (depth : Nat)
    (state : State κ σ) (id : SubscriberId) (binding : Binding κ)
    (idle : state.observer = none) (found : state.binding? id = some binding) :
    (∀ value later,
      Engine.evaluateBinding (Program.invoke code depth) id binding state =
        .ended (.ok value) later →
      ∃ reads final after,
        Engine.Runs (fun _ => False)
          (Engine.evaluateFormula (Program.invoke code depth) binding.context binding.formula)
          (state.observing id) reads (.ok value) final ∧
        later.binding? id = some after ∧ after.subscriptions = reads.eraseDups) ∧
    (∀ value reads final, state.store.Ranged → 0 < state.underWay id →
      Engine.Runs (· = id)
        (Engine.evaluateFormula (Program.invoke code depth) binding.context binding.formula)
        (state.observing id) reads (.ok value) final →
      ∃ later after,
        Engine.evaluateBinding (Program.invoke code depth) id binding state =
          .ended (.ok value) later ∧
        later.binding? id = some after ∧ after.subscriptions = reads.eraseDups ∧
        ∀ registry ∈ after.subscriptions, id ∈ later.store.subscribers registry) := by
  have there : (state.binding? id).isSome := by rw [found]; rfl
  constructor
  · intro value later ended
    obtain ⟨reads, final, runs, -, rfl, -⟩ :=
      Engine.attributed_evaluateBinding idle ended
    obtain ⟨before, present⟩ := Option.isSome_iff_exists.mp (runs.carries.present there)
    have present' : State.binding? { final with observer := none } id = some before := present
    obtain ⟨after, kept, counted, -⟩ := State.reconciled present' reads.eraseDups state.store value
    exact ⟨reads, final, after, runs, kept, counted⟩
  · intro value reads final ranged running runs
    have collected : final.Collected id := by
      apply runs.collected rfl running ranged
      rintro reads' ⟨⟩
      exact nofun
    obtain ⟨before, present⟩ := Option.isSome_iff_exists.mp (runs.carries.present there)
    have present' : State.binding? { final with observer := none } id = some before := present
    obtain ⟨after, kept, counted, registered⟩ :=
      State.reconciled present' reads.eraseDups state.store value
    refine ⟨_, after, Engine.evaluateBinding_of_runs idle runs, kept, counted, ?_⟩
    intro registry member
    rw [counted] at member
    exact registered registry member
      (collected reads.eraseDups runs.observer_observing registry member)

/-- The method writes a field that nobody has read, and the binding is where it has read. -/
theorem evaluation_registers_reads_turned :
    (∃ later after,
      Engine.evaluateBinding (Program.invoke turn 3) ⟨0⟩ poisedBinding poised =
        .ended (.ok .null) later ∧
      later.binding? ⟨0⟩ = some after ∧ after.subscriptions = [⟨1⟩] ∧
      ∀ registry ∈ after.subscriptions, ⟨0⟩ ∈ later.store.subscribers registry) ∧
    ∃ reads final,
      Engine.Runs (fun _ => False)
        (Engine.evaluateFormula (Program.invoke turn 3) poisingContext poising)
        (poised.observing ⟨0⟩) reads (.ok .null) final ∧
      reads.eraseDups = [⟨1⟩] := by
  obtain ⟨always, spared⟩ :=
    evaluation_registers_reads turn 3 poised ⟨0⟩ poisedBinding rfl rfl
  obtain ⟨final, runs⟩ := Engine.runs_poised
  obtain ⟨later, after, ended, kept, counted, registered⟩ :=
    spared .null [⟨1⟩] final ranged_poised (by decide +kernel) runs
  obtain ⟨reads, final', after', runs', kept', counted'⟩ := always .null later ended
  have same : after' = after := by
    rw [kept] at kept'
    exact (Option.some.inj kept').symm
  refine ⟨⟨later, after, ended, kept, counted, registered⟩, reads, final', runs', ?_⟩
  rw [← counted', same, counted]
  rfl

/-- The formula `c ? (r || flip()) : null`, and then `r` becomes false. -/
def turned : Program String Unit Unit := do
  let root ← Program.run (.newRecord [("c", .bool true), ("r", .bool true)])
  Program.run (.instrument root)
  let methods := Dictionary.ofList [("flip", "flip"), ("turn", "turn")]
  let _ ← Program.run (.bind "c ? (r || flip()) : null"
    (.expression (.conditional (.identifier "c")
      (.logical .or (.identifier "r") (.call (.identifier "flip") [])) (.literal .null)))
    ⟨root, methods⟩ "ignored")
  Program.run (.write (.field root "r") (.bool false))

/-- The evaluation counts both fields that it has read. The one that came in between has
taken the binding out of the second field. -/
theorem registration_lost :
    (turned.execute (Program.invoke turn 9) 9 (State.initial ())).ended?.map
        (fun ended => ended.1.isOk) = some true ∧
    ((turned.execute (Program.invoke turn 9) 9 (State.initial ())).state.binding? ⟨0⟩).map
        (fun binding => (binding.subscriptions,
          binding.latest.map (fun evaluation => evaluation.outcome.isOk))) =
      some ([⟨0⟩, ⟨1⟩], some true) ∧
    (turned.execute (Program.invoke turn 9) 9 (State.initial ())).state.store.registries =
      #[[⟨0⟩], []] := by
  decide +kernel

end ReactiveView
