import ReactiveView.Proofs.Accounting
import ReactiveView.Proofs.Registries
import ReactiveView.Proofs.Saturation
import ReactiveView.Proofs.Subscriptions

/-!
# A write and the turns of its dependents

A pass goes over the subscribers that a registry had when the pass began. Each is a binding,
which is evaluated and reacts at its turn, and in doing so leaves and joins registries, the
one of the pass among them. As long as reactions leave alone what the others depend on,
every one of them is still there at its turn, has its turn once, and finds the data that
were written.
-/

namespace ReactiveView

set_option autoImplicit false

variable {κ σ : Type}

namespace State

variable {state later final : State κ σ} {kept kept' : SubscriberId → Prop} {id : SubscriberId}

/-- The data only grow, and certain subscribers stay as they are and where they are. -/
structure Leaves (kept : SubscriberId → Prop) (state later : State κ σ) : Prop where
  data : state.store.Continues later.store (fun _ => False)
  others : ∀ id, kept id → later.subscriber? id = state.subscriber? id
  members : ∀ id, kept id → ∀ registry,
    id ∈ later.store.subscribers registry ↔ id ∈ state.store.subscribers registry

theorem Leaves.refl (state : State κ σ) : state.Leaves kept state :=
  ⟨.refl _, fun _ _ => rfl, fun _ _ _ => Iff.rfl⟩

theorem Leaves.mono (leaves : state.Leaves kept later) (fewer : ∀ id, kept' id → kept id) :
    state.Leaves kept' later :=
  ⟨leaves.data, fun id still => leaves.others id (fewer id still),
    fun id still => leaves.members id (fewer id still)⟩

theorem Leaves.trans (first : state.Leaves kept later) (second : later.Leaves kept final) :
    state.Leaves kept final where
  data := by
    have whole := first.data.trans second.data
    simpa only [or_self] using whole
  others := fun id still => (second.others id still).trans (first.others id still)
  members := fun id still registry =>
    (second.members id still registry).trans (first.members id still registry)

theorem SameButFor.leaves (same : state.SameButFor id later) : state.Leaves (· ≠ id) later :=
  ⟨same.data.continues, same.others, same.members⟩

structure Spares (state later : State κ σ) : Prop where
  idle : later.observer = none
  subscribers : later.subscribers = state.subscribers
  members : ∀ registry, later.store.subscribers registry = state.store.subscribers registry
  ranged : state.store.Ranged → later.store.Ranged
  data : state.store.Continues later.store (fun _ => False)

theorem Spares.leaves (spares : state.Spares later) : state.Leaves kept later where
  data := spares.data
  others := by
    intro id _
    simp only [subscriber?, spares.subscribers]
  members := by
    intro id _ registry
    rw [spares.members]

theorem Spares.coherent (spares : state.Spares later) (coherent : state.Coherent) :
    later.Coherent := by
  have changed : (state.changeStore (fun _ => later.store)).Coherent :=
    coherent.changeStore (spares.ranged coherent.ranged) spares.members
  exact changed.sameCore
    ⟨rfl, spares.idle.trans coherent.idle.symm, spares.subscribers⟩

theorem SameCore.spares (same : state.SameCore later) (idle : state.observer = none) :
    state.Spares later := by
  refine ⟨same.observer.trans idle, same.subscribers, ?_, ?_, ?_⟩
  · intro registry
    rw [same.store]
  · intro ranged
    rw [same.store]
    exact ranged
  · rw [same.store]
    exact .refl _

end State

/-- Reactions may make new containers and make data reactive. They change no value, and
neither make, drop nor run bindings, nor change registries, however they end. -/
def Sparing (invoke : Invoke κ σ) : Prop :=
  ∀ body value (state : State κ σ), state.observer = none →
    state.Spares (invoke body (.updated value) state).state

theorem Quiet.sparing {invoke : Invoke κ σ} (quiet : Quiet invoke) : Sparing invoke :=
  fun body value state idle => (quiet body value state idle).spares idle

namespace Engine

variable {invoke : Invoke κ σ} {state written : State κ σ} {id : SubscriberId}
  {registry : RegistryId}

theorem spares_react (sparing : Sparing invoke) (reaction : Reaction κ) (value : Value)
    (idle : state.observer = none) :
    state.Spares (react invoke reaction value state).state := by
  have document {document : Document (Listener κ)} : state.Spares { state with document } :=
    State.SameCore.spares ⟨rfl, rfl, rfl⟩ idle
  cases reaction with
  | code body =>
      have spares := sparing body value state idle
      simp only [react, Bind.bind, bind]
      cases ran : invoke body (.updated value) state with
      | stopped later => rwa [ran] at spares
      | ended outcome later =>
          rw [ran] at spares
          cases outcome <;> exact spares
  | textContent node => exact document
  | renderedText node => exact document
  | property node name => exact document

/-- The turn of a binding in a pass that a write began. It is evaluated, which gives what
its formula gives on the data that were written, and it reacts to a value once. -/
inductive Turn (invoke : Invoke κ σ) (written state : State κ σ) (id : SubscriberId) :
    Course κ σ Unit → Prop where
  | unevaluated {evaluated : State κ σ} {binding : Binding κ} {error : Error}
      (found : written.binding? id = some binding)
      (present : evaluateFormula invoke binding.context binding.formula written =
        .ended (.error error) written)
      (evaluates : evaluateBinding invoke id binding (state.enter id) =
        .ended (.error error) evaluated) :
      Turn invoke written state id (.ended (.error error) (evaluated.leave id))
  | reacted {evaluated later : State κ σ} {binding : Binding κ} {value : Value}
      {outcome : Except Error Unit} (found : written.binding? id = some binding)
      (present : evaluateFormula invoke binding.context binding.formula written =
        .ended (.ok value) written)
      (evaluates : evaluateBinding invoke id binding (state.enter id) =
        .ended (.ok value) evaluated)
      (reacts : react invoke binding.reaction value (evaluated.hand id value) =
        .ended outcome later) :
      Turn invoke written state id (.ended outcome (later.leave id))
  | halted {evaluated later : State κ σ} {binding : Binding κ} {value : Value}
      (found : written.binding? id = some binding)
      (present : evaluateFormula invoke binding.context binding.formula written =
        .ended (.ok value) written)
      (evaluates : evaluateBinding invoke id binding (state.enter id) =
        .ended (.ok value) evaluated)
      (reacts : react invoke binding.reaction value (evaluated.hand id value) = .stopped later) :
      Turn invoke written state id (.stopped later)

/-- Turns one after the other. The first error ends them, and a stop within a reaction does;
those that were still to come are missed. -/
inductive Turns (invoke : Invoke κ σ) (written : State κ σ) :
    State κ σ → List SubscriberId → List SubscriberId → Course κ σ Unit → Prop where
  | done (state : State κ σ) : Turns invoke written state [] [] (.ended (.ok ()) state)
  | next {state later : State κ σ} {id : SubscriberId} {rest missed : List SubscriberId}
      {course : Course κ σ Unit} (turn : Turn invoke written state id (.ended (.ok ()) later))
      (others : Turns invoke written later rest missed course) :
      Turns invoke written state (id :: rest) missed course
  | broken {state later : State κ σ} {id : SubscriberId} {error : Error}
      (missed : List SubscriberId)
      (turn : Turn invoke written state id (.ended (.error error) later)) :
      Turns invoke written state (id :: missed) missed (.ended (.error error) later)
  | halted {state later : State κ σ} {id : SubscriberId} (missed : List SubscriberId)
      (turn : Turn invoke written state id (.stopped later)) :
      Turns invoke written state (id :: missed) missed (.stopped later)

theorem takeTurn_of_member (coherent : state.Coherent) {binding : Binding κ}
    (found : state.binding? id = some binding) (member : id ∈ state.store.subscribers registry) :
    takeTurn invoke registry id state = whileRunning id (refresh invoke id binding) state := by
  have alive := coherent.alive member
  obtain ⟨held, underWay, present⟩ := State.binding?_eq_some_iff.mp found
  have looked : (look (fun state => (state.subscriber? id).map Subscriber.role) :
      Engine κ σ (Option (Role κ))) state = .ended (.ok (some (.binding binding))) state := by
    simp only [look, present, Option.map_some]
  change (if decide (id ∈ state.store.subscribers registry) then
    (if state.isAlive id then notify invoke id
      else alter (State.changeStore (·.unregister registry id)))
    else pure ()) state = _
  simp only [member, alive, decide_true, if_true]
  rw [notify, bind_of_ok looked]

theorem attempted_at_turn (coherent : state.Coherent) {binding : Binding κ}
    (found : state.binding? id = some binding) :
    ((state.enter id).attempted id binding).Coherent ∧
      state.Leaves (· ≠ id) ((state.enter id).attempted id binding) := by
  have entered : state.SameButFor id (state.enter id) :=
    State.sameButFor_changeSubscriber state id _
  have linked : (state.enter id).Linked id :=
    (coherent.exact id).toLinked.changeSubscriber (fun _ => rfl)
  have found' : (state.enter id).binding? id = some binding := by
    rw [State.binding?_enter, found]
  refine ⟨coherent.attempted entered linked found' (State.isAlive_enter_self found), ?_⟩
  exact (entered.trans (State.sameButFor_attempted found')).leaves

/-- A run of a binding whose account is the one on the data that were written is a turn of
it. It leaves all others alone, and subscriptions and registries agree afterwards. -/
theorem turn_of_binding (sparing : Sparing invoke) (idle : written.observer = none)
    (coherent : state.Coherent) {binding : Binding κ}
    (found : state.binding? id = some binding) (found' : written.binding? id = some binding)
    (same : binding.account state.store = binding.account written.store) :
    Turn invoke written state id (whileRunning id (refresh invoke id binding) state) ∧
      state.Leaves (· ≠ id) (whileRunning id (refresh invoke id binding) state).state ∧
      ∀ outcome later, whileRunning id (refresh invoke id binding) state =
        .ended outcome later → later.Coherent := by
  have plain := ((coherent.exact id).plain binding found).callsNone
  have evaluates : evaluateBinding invoke id binding (state.enter id) =
      .ended (binding.account written.store).outcome ((state.enter id).evaluated id binding) := by
    have idle' : (state.enter id).observer = none := coherent.idle
    rw [evaluateBinding_eq invoke id plain idle', ← same]
    rfl
  have present : evaluateFormula invoke binding.context binding.formula written =
      .ended (binding.account written.store).outcome written :=
    evaluateFormula_idle invoke plain idle
  obtain ⟨coherent', left⟩ := attempted_at_turn coherent found
  have here : (binding.account (state.enter id).store).outcome =
      (binding.account written.store).outcome := congrArg Account.outcome same
  rw [whileRunning_eq]
  cases result : (binding.account written.store).outcome with
  | error error =>
      rw [result] at evaluates present
      rw [refresh, bind_of_error evaluates]
      rw [State.attempted_of_error (here.trans result)] at coherent' left
      refine ⟨.unevaluated found' present evaluates, ?_, ?_⟩
      · exact left.trans (State.sameButFor_release _ id _).leaves
      · rintro _ _ ⟨⟩
        exact coherent'.release id State.releases_leave
  | ok value =>
      rw [result] at evaluates present
      rw [State.attempted_of_ok (here.trans result)] at coherent' left
      have handed : (alter (State.hand id value) : Engine κ σ Unit)
          ((state.enter id).evaluated id binding) =
            .ended (.ok ()) (((state.enter id).evaluated id binding).hand id value) := rfl
      rw [refresh, bind_of_ok evaluates, bind_of_ok handed]
      have spares := spares_react sparing binding.reaction value coherent'.idle
      cases reacts : react invoke binding.reaction value
          (((state.enter id).evaluated id binding).hand id value) with
      | stopped later =>
          rw [reacts] at spares
          refine ⟨.halted found' present evaluates reacts, left.trans spares.leaves, ?_⟩
          rintro _ _ ⟨⟩
      | ended outcome later =>
          rw [reacts] at spares
          refine ⟨.reacted found' present evaluates reacts, ?_, ?_⟩
          · exact (left.trans spares.leaves).trans (State.sameButFor_release later id _).leaves
          · rintro _ _ ⟨⟩
            exact (spares.coherent coherent').release id State.releases_leave

theorem Turns.mem_of_missed {ids missed : List SubscriberId} {course : Course κ σ Unit}
    (turns : Turns invoke written state ids missed course) :
    ∀ other ∈ missed, other ∈ ids := by
  induction turns with
  | done => exact fun _ => id
  | next _ _ induction =>
      exact fun other member => List.mem_cons_of_mem _ (induction other member)
  | broken => exact fun other member => List.mem_cons_of_mem _ member
  | halted => exact fun other member => List.mem_cons_of_mem _ member

/-- By induction on those still to come. What carries it is that the turns so far have left
them as they were when the pass began, so that each is still in the registry of the pass
and evaluates to what it would have evaluated to then. -/
theorem turns_of_pass (sparing : Sparing invoke) (closed : written.store.Closed)
    (contexts : ∀ id binding, written.binding? id = some binding →
      written.store.Has (.record binding.context.data))
    (idle : written.observer = none) {ids : List SubscriberId} (distinct : ids.Nodup)
    (members : ∀ id ∈ ids, id ∈ written.store.subscribers registry)
    (coherent : state.Coherent) (since : written.Leaves (· ∈ ids) state) :
    ∃ missed, Turns invoke written state ids missed
        (forEach (takeTurn invoke registry) ids state) ∧
      state.Leaves (fun id => id ∉ ids ∨ id ∈ missed)
        (forEach (takeTurn invoke registry) ids state).state := by
  induction ids generalizing state with
  | nil => exact ⟨[], .done state, .refl state⟩
  | cons id rest induction =>
      obtain ⟨apart, distinct'⟩ := List.nodup_cons.mp distinct
      have here : id ∈ id :: rest := List.mem_cons_self
      have member : id ∈ state.store.subscribers registry :=
        (since.members id here registry).mpr (members id here)
      obtain ⟨binding, found, -⟩ := ((coherent.exact id).joined registry).mp member
      have found' : written.binding? id = some binding := by
        rw [← found]
        exact (State.binding?_congr (congrArg (Option.map Subscriber.role)
          (since.others id here))).symm
      have same : binding.account state.store = binding.account written.store :=
        Binding.account_of_continues ((coherent.exact id).plain binding found).callsNone closed
          (contexts id binding found') since.data (fun _ => nofun)
      obtain ⟨turn, left, coherent'⟩ :=
        turn_of_binding sparing idle coherent found found' same
      rw [← takeTurn_of_member coherent found member] at turn left coherent'
      have ends (missed : List SubscriberId) (among : ∀ other ∈ missed, other ∈ rest) :
          state.Leaves (fun other => other ∉ id :: rest ∨ other ∈ missed)
            (takeTurn invoke registry id state).state := by
        apply left.mono
        rintro other (outside | waiting) rfl
        · exact outside here
        · exact apart (among other waiting)
      change ∃ missed, Turns invoke written state (id :: rest) missed
          ((takeTurn invoke registry id >>= fun _ => forEach (takeTurn invoke registry) rest)
            state) ∧ state.Leaves _ ((takeTurn invoke registry id >>= fun _ =>
              forEach (takeTurn invoke registry) rest) state).state
      cases ran : takeTurn invoke registry id state with
      | stopped later =>
          rw [ran] at turn ends
          simp only [Bind.bind, bind, ran]
          exact ⟨rest, .halted rest turn, ends rest (fun _ waiting => waiting)⟩
      | ended outcome later =>
          rw [ran] at turn left coherent' ends
          cases outcome with
          | error error =>
              rw [bind_of_error ran]
              exact ⟨rest, .broken rest turn, ends rest (fun _ waiting => waiting)⟩
          | ok result =>
              rw [bind_of_ok ran]
              have since' : written.Leaves (· ∈ rest) later := by
                refine (since.mono (fun _ => List.mem_cons_of_mem id)).trans (left.mono ?_)
                rintro other waiting rfl
                exact apart waiting
              obtain ⟨missed, turns, left'⟩ := induction distinct'
                (fun other waiting => members other (List.mem_cons_of_mem id waiting))
                (coherent' _ _ rfl) since'
              refine ⟨missed, .next turn turns, (ends missed turns.mem_of_missed).trans ?_⟩
              apply left'.mono
              rintro other (outside | waiting)
              · exact .inl (fun waiting => outside (List.mem_cons_of_mem id waiting))
              · exact .inr waiting

end Engine

/-- In every state that a run on bindings leads to, wherever it is stopped, and with data in
which all that is referred to exists: a write to a reactive field stores the value and
gives each subscriber of the field one turn, in their order, until one fails. Whoever was no
subscriber or is missed stays as and where it was. -/
theorem write_gives_turns {α : Type} {code : κ → Occasion κ → Program κ σ Value}
    (within : ∀ body value, (code body (.updated value)).Uses Command.OnBindings)
    {program : Program κ σ α} (uses : program.Uses Command.OnBindings) (depth : Nat) (host : σ)
    {state : State κ σ}
    (reached : (program.execute (Program.invoke code depth) depth (State.initial host)).state =
      state)
    (closed : state.store.Closed)
    (contexts : ∀ id binding, state.binding? id = some binding →
      state.store.Has (.record binding.context.data))
    {invoke : Invoke κ σ} (sparing : Sparing invoke) {record : RecordId} {key : String}
    {registry : RegistryId}
    (attached : state.store.registryAt (.field record key) = some registry) {value : Value}
    (known : value.Within state.store.Has) :
    let written := state.changeStore (fun store =>
      store.overwrite (.field record key) value registry)
    let course := Engine.write invoke (.field record key) value state
    (state.store.subscribers registry).Nodup ∧
    course.state.store.peek (.field record key) = some value ∧
    ∃ missed,
      Engine.Turns invoke written written (state.store.subscribers registry) missed course ∧
      ∀ id, id ∉ state.store.subscribers registry ∨ id ∈ missed →
        course.state.subscriber? id = state.subscriber? id ∧
        ∀ other, id ∈ course.state.store.subscribers other ↔
          id ∈ state.store.subscribers other := by
  intro written course
  have coherent : state.Coherent := reached ▸ Program.coherent_execute within uses depth host
  have distinct : (state.store.subscribers registry).Nodup := by
    rw [← reached]
    exact Program.distinct_execute code program depth host registry
  obtain ⟨old, found⟩ := Store.slot?_of_registryAt attached
  have members (other : RegistryId) :
      written.store.subscribers other = state.store.subscribers other :=
    Store.subscribers_overwrite state.store (.field record key) value registry other
  have stored : written.store.slot? (.field record key) = some ⟨value, some registry⟩ :=
    Store.slot?_overwrite (Store.isSome_slot?_of_registryAt attached) value registry
  have coherent' : written.Coherent :=
    coherent.changeStore (Store.ranged_overwrite coherent.ranged attached value) members
  have closed' : written.store.Closed :=
    (Store.upholds_overwrite closed (.field record key) known registry).closed
  obtain ⟨missed, turns, left⟩ := Engine.turns_of_pass sparing closed'
    (fun id binding present => Store.has_overwrite (contexts id binding present)) coherent'.idle
    distinct (fun id member => by rw [members]; exact member) coherent' (.refl written)
  have pass : course = Engine.forEach (Engine.takeTurn invoke registry)
      (state.store.subscribers registry) written := by
    rw [← members]
    exact Engine.write_of_reactive found value
  rw [← pass] at turns left
  refine ⟨distinct, ?_, missed, turns, ?_⟩
  · have there : (written.store.slot? (.field record key)).isSome := by
      rw [stored]
      rfl
    rw [left.data.peek _ (Store.has_of_slot? there) not_false, Store.peek, stored]
    rfl
  · intro id untouched
    refine ⟨left.others id untouched, ?_⟩
    intro other
    rw [left.members id untouched, members]

/-- The data of each binding's context exist. -/
def State.rootsExist (state : State κ σ) : Bool :=
  state.subscribers.toList.all (fun subscriber =>
    match subscriber.role with
    | .binding binding => state.store.knows (.record binding.context.data)
    | .code _ => true)

theorem State.has_of_rootsExist {state : State κ σ} (exist : state.rootsExist = true)
    {id : SubscriberId} {binding : Binding κ} (found : state.binding? id = some binding) :
    state.store.Has (.record binding.context.data) := by
  obtain ⟨held, underWay, present⟩ := State.binding?_eq_some_iff.mp found
  have member : ⟨.binding binding, held, underWay⟩ ∈ state.subscribers.toList :=
    Array.mem_toList_iff.mpr (Array.mem_of_getElem? present)
  exact Store.within_of_knows (List.all_eq_true.mp exist _ member) _ rfl

def flagged : Bool → Occasion Bool → Program Bool Unit Value
  | true, .updated (.bool false) => Program.fail (.unknownMethod "down")
  | _, _ => pure .null

def flags : Program Bool Unit Unit := do
  let root ← Program.run
    (.newRecord [("flag", .bool true), ("first", .text "a"), ("second", .text "b")])
  Program.run (.instrument root)
  let chosen : Expression :=
    .conditional (.identifier "flag") (.identifier "first") (.identifier "second")
  let _ ← Program.run (.bind "chosen" (.expression chosen) ⟨root, .empty⟩ false)
  let _ ← Program.run (.bind "flag" (.expression (.identifier "flag")) ⟨root, .empty⟩ true)
  let _ ← Program.run (.bind "flag" (.expression (.identifier "flag")) ⟨root, .empty⟩ false)
  pure ()

theorem flagged_uses (body : Bool) (value : Value) :
    (flagged body (.updated value)).Uses Command.OnBindings := by
  unfold flagged
  split <;> trivial

theorem flags_uses : flags.Uses Command.OnBindings := by
  apply Program.uses_bind (Program.uses_run trivial)
  intro root
  apply Program.uses_bind (Program.uses_run trivial)
  intro _
  apply Program.uses_bind (Program.uses_run rfl)
  intro _
  apply Program.uses_bind (Program.uses_run rfl)
  intro _
  exact Program.uses_bind (Program.uses_run rfl) (fun _ => trivial)

theorem flagged_quiet : Quiet (Program.invoke flagged 1) := by
  intro body value state _
  have same : (Program.invoke flagged 1 body (.updated value) state).state = state := by
    change ((flagged body (.updated value)).execute _ 0 state).state = state
    unfold flagged
    split <;> rfl
  rw [same]
  exact .refl state

def raised : State Bool Unit := (flags.execute (Program.invoke flagged 1) 1 (State.initial ())).state

def putDown : Course Bool Unit Unit :=
  Engine.write (Program.invoke flagged 1) (.field ⟨0⟩ "flag") (.bool false) raised

/-- The first binding moves from one field to the other at its turn, the second one fails,
and the third one is missed: it still has what it was handed before. -/
theorem write_gives_turns_flag :
    raised.store.subscribers ⟨0⟩ = [⟨0⟩, ⟨1⟩, ⟨2⟩] ∧
    putDown.state.store.registries = #[[⟨0⟩, ⟨1⟩, ⟨2⟩], [], [⟨0⟩]] ∧
    (putDown.state.binding? ⟨2⟩).bind Binding.handed = some (.bool true) ∧
    putDown.state.store.peek (.field ⟨0⟩ "flag") = some (.bool false) ∧
    ∃ missed,
      Engine.Turns (Program.invoke flagged 1)
        (raised.changeStore (fun store => store.overwrite (.field ⟨0⟩ "flag") (.bool false) ⟨0⟩))
        (raised.changeStore (fun store => store.overwrite (.field ⟨0⟩ "flag") (.bool false) ⟨0⟩))
        (raised.store.subscribers ⟨0⟩) missed putDown ∧
      ∀ id, id ∉ raised.store.subscribers ⟨0⟩ ∨ id ∈ missed →
        putDown.state.subscriber? id = raised.subscriber? id ∧
        ∀ other, id ∈ putDown.state.store.subscribers other ↔
          id ∈ raised.store.subscribers other := by
  have closed : raised.store.Closed := Store.closed_of_known (by decide +kernel)
  have exist : raised.rootsExist = true := by decide +kernel
  have attached : raised.store.registryAt (.field ⟨0⟩ "flag") = some ⟨0⟩ := by decide +kernel
  have known : (Value.bool false).Within raised.store.Has := Value.within_of_scalar rfl _
  have reached : (flags.execute (Program.invoke flagged 1) 1 (State.initial ())).state = raised :=
    rfl
  have turns := write_gives_turns flagged_uses flags_uses 1 () reached closed
    (fun id binding found => State.has_of_rootsExist exist found) flagged_quiet.sparing attached
    known
  exact ⟨by decide +kernel, by decide +kernel, by decide +kernel, turns.2.1, turns.2.2⟩

/-- The command that runs a binding, and no other. -/
def Command.RunsAgain : {β : Type} → Command κ β → Prop
  | _, .reevaluate _ => True
  | _, _ => False

/-- Reactions note that they run. Then one of them runs the first binding again. -/
def echo : Bool → Occasion Bool → Program Bool (List Bool) Value
  | false, .updated _ => do
      Program.keep (· ++ [false])
      pure .null
  | true, .updated (.text "b") => do
      Program.keep (· ++ [true])
      Program.run (.reevaluate ⟨0⟩)
      pure .null
  | true, .updated _ => do
      Program.keep (· ++ [true])
      pure .null
  | _, _ => pure .null

def echoes : Program Bool (List Bool) Unit := do
  let root ← Program.run (.newRecord [("name", .text "a")])
  Program.run (.instrument root)
  let _ ← Program.run (.bind "name" (.expression (.identifier "name")) ⟨root, .empty⟩ false)
  let _ ← Program.run (.bind "name" (.expression (.identifier "name")) ⟨root, .empty⟩ true)
  pure ()

def echoing : State Bool (List Bool) :=
  (echoes.execute (Program.invoke echo 2) 2 (State.initial [])).state

/-- No reaction writes, or makes or drops a binding, and yet of two bindings to a field the
first one runs twice on a write. -/
theorem turn_repeated :
    (∀ body value, (echo body (.updated value)).Uses Command.RunsAgain) ∧
    echoing.store.registryAt (.field ⟨0⟩ "name") = some ⟨0⟩ ∧
    echoing.store.subscribers ⟨0⟩ = [⟨0⟩, ⟨1⟩] ∧
    echoing.host = [false, true] ∧
    (Engine.write (Program.invoke echo 2) (.field ⟨0⟩ "name") (.text "b") echoing).state.host =
      [false, true] ++ [false, true, false] := by
  refine ⟨?_, by decide +kernel, by decide +kernel, by decide +kernel, by decide +kernel⟩
  intro body value
  unfold echo
  split
  · trivial
  · exact ⟨trivial, fun outcome => by cases outcome <;> trivial⟩
  · trivial
  · trivial

end ReactiveView
