import ReactiveView.Proofs.Conduct

/-!
# Subscriptions are exact

Whatever callers do with data and bindings, and wherever their code runs: whenever
they have control, registries and subscriptions agree, and the subscriptions of a
live binding are what its latest evaluation read.
-/

namespace ReactiveView

set_option autoImplicit false

variable {κ σ : Type}

def Conduct.coherence (κ σ : Type) : Conduct κ σ where
  holds := State.Coherent
  related := fun _ _ => True
  admits := Binding.Plain
  settled := fun _ _ => True
  tolerant := True
  coherent := id
  admitted := fun coherent found => (coherent.exact _).plain _ found
  same := fun same coherent => ⟨coherent.sameCore same, trivial⟩
  trans := fun _ _ => trivial
  remains := fun _ _ => trivial
  attempts := fun coherent same _ linked found alive _ _ =>
    ⟨coherent.attempted same linked found alive, trivial, trivial⟩
  releases := fun id releases coherent => ⟨coherent.release id releases, trivial⟩
  left := fun _ _ _ _ _ => trivial

namespace Command

/-- Commands on data and bindings, with formulas that call no method. Registries are
left to the bindings. -/
def OnBindings : {β : Type} → Command κ β → Prop
  | _, .newRecord _ | _, .newList _ | _, .read _ | _, .write _ _ | _, .push _ _ => True
  | _, .instrument _ | _, .instrumentField _ _ | _, .drop _ | _, .reevaluate _ => True
  | _, .bind _ formula context _ => formula.callsNone context.methods = true
  | _, _ => False

end Command

namespace Engine

variable {invoke : Invoke κ σ} {state : State κ σ}

theorem coherent_write (keeps : (Conduct.coherence κ σ).Keeps invoke)
    (coherent : state.Coherent) (place : Place) (value : Value) :
    (Conduct.coherence κ σ).Meets state (fun _ _ => True) (write invoke place value state) := by
  have plain : (state.changeStore (·.put place (.plain value))).Coherent :=
    coherent.changeStore (Store.ranged_put_plain coherent.ranged place value)
      (Store.subscribers_put _ _ _)
  cases found : state.store.slot? place with
  | none =>
      rcases write_of_absent found value with written | ⟨error, failed⟩
      · rw [written]
        exact ⟨plain, trivial, trivial⟩
      · rw [failed]
        exact fun _ => ⟨coherent, trivial⟩
  | some slot =>
      obtain ⟨old, registry⟩ := slot
      cases registry with
      | none =>
          rw [write_of_plain found]
          exact ⟨plain, trivial, trivial⟩
      | some registry =>
          have attached : state.store.registryAt place = some registry := by
            simp only [Store.registryAt, found, Option.bind_some]
          have written : (state.changeStore
              (fun store => store.overwrite place value registry)).Coherent :=
            coherent.changeStore (Store.ranged_overwrite coherent.ranged attached value)
              (Store.subscribers_overwrite _ _ _ _)
          rw [write_of_reactive found]
          exact ((meets_notifyAll keeps written registry).after trivial).weaken
            (fun _ _ _ _ => trivial)

theorem coherent_onStore {β : Type} (coherent : state.Coherent) (change : Store → β × Store)
    (ranged : (change state.store).2.Ranged)
    (same : ∀ registry, (change state.store).2.subscribers registry =
      state.store.subscribers registry) :
    (Conduct.coherence κ σ).Meets state (fun _ _ => True)
      ((Command.onStore change : Engine κ σ β) state) := by
  have changed : (state.changeStore (fun store => (change store).2)).Coherent :=
    coherent.changeStore ranged same
  exact ⟨changed, trivial, trivial⟩

theorem coherent_perform (depth : Nat) (keeps : (Conduct.coherence κ σ).Keeps invoke)
    {β : Type} (command : Command κ β) (allowed : command.OnBindings)
    (coherent : state.Coherent) :
    (Conduct.coherence κ σ).Meets state (fun _ _ => True)
      (command.perform invoke depth state) := by
  cases command with
  | newRecord fields =>
      exact coherent_onStore coherent (·.newRecord fields)
        (Store.ranged_newRecord coherent.ranged fields) (fun _ => rfl)
  | newList items =>
      exact coherent_onStore coherent (·.newList items)
        (Store.ranged_newList coherent.ranged items) (fun _ => rfl)
  | read place =>
      rw [perform_read depth place coherent.idle]
      exact ⟨coherent, trivial, trivial⟩
  | write place value => exact coherent_write keeps coherent place value
  | push list value =>
      exact ⟨coherent.changeStore (Store.ranged_push coherent.ranged list value)
        (fun _ => rfl), trivial, trivial⟩
  | instrument record =>
      have instruments := Store.instruments_instrumentFrom state.store [.record record]
      exact ⟨coherent.changeStore (instruments.ranged coherent.ranged) instruments.subscribers,
        trivial, trivial⟩
  | instrumentField record key =>
      have instruments := Store.instruments_instrumentField state.store record key
      exact coherent_onStore coherent
        (fun store => ((store.peek (.field record key)).isSome, store.instrumentField record key))
        (instruments.ranged coherent.ranged) instruments.subscribers
  | drop subscriber => exact meets_drop coherent subscriber
  | reevaluate binding => exact meets_reevaluate keeps coherent binding
  | bind source formula context body =>
      exact meets_bindFormula (keeps.suits (.code body)) coherent source allowed ⟨allowed⟩
  | _ => exact allowed.elim

end Engine

namespace State

/-- What registries and subscriptions have to do with each other while no evaluation
is in progress. -/
structure Subscribed (state : State κ σ) : Prop where
  idle : state.observer = none
  joined : ∀ id registry, id ∈ state.store.subscribers registry ↔
    ∃ binding, state.binding? id = some binding ∧ registry ∈ binding.subscriptions
  distinct : ∀ id binding, state.binding? id = some binding → binding.subscriptions.Nodup
  /-- The latest evaluation is what the engine gives on the data it ran on, with the
  registries that it reads there, and after a failure the earlier ones come first. -/
  latest : ∀ id binding, state.binding? id = some binding → state.isAlive id = true →
    ∃ evaluation, binding.latest = some evaluation ∧
      (∀ (invoke : Invoke κ σ) (start : State κ σ), start.store = evaluation.data →
        start.observer = some ⟨id, []⟩ →
        ∃ later,
          Engine.evaluateFormula invoke binding.context binding.formula start =
            .ended evaluation.outcome later ∧
          later.observer = some ⟨id, binding.reads evaluation.data⟩) ∧
      binding.subscriptions =
        match evaluation.outcome with
        | .ok _ => binding.reads evaluation.data
        | .error _ =>
            evaluation.earlier ++
              (binding.reads evaluation.data).filter (· ∉ evaluation.earlier)
  alive : ∀ id registry, id ∈ state.store.subscribers registry → state.isAlive id = true

theorem Coherent.subscribed {state : State κ σ} (coherent : state.Coherent) :
    state.Subscribed where
  idle := coherent.idle
  joined := fun id => (coherent.exact id).joined
  distinct := fun id => (coherent.exact id).distinct
  latest := by
    intro id binding found alive
    obtain ⟨evaluation, latest, outcome, subscriptions⟩ :=
      (coherent.exact id).traced binding found alive
    refine ⟨evaluation, latest, ?_, subscriptions⟩
    intro invoke start data observed
    have plain := ((coherent.exact id).plain binding found).1
    obtain ⟨later, ended, collected⟩ := Engine.evaluateFormula_observed invoke plain observed
    refine ⟨later, ?_, ?_⟩
    · rw [ended, data, outcome]
      rfl
    · rw [collected, data, Observer.foldl_see]
      rfl
  alive := fun _ _ => coherent.alive

end State

theorem State.coherent_initial (host : σ) : State.Coherent (State.initial host : State κ σ) :=
  State.coherent_of_store Store.ranged_empty (fun _ => rfl) host

theorem Program.coherent_execute {α : Type} {code : κ → Occasion κ → Program κ σ Value}
    (within : ∀ body value, (code body (.updated value)).Uses Command.OnBindings)
    {program : Program κ σ α} (uses : program.Uses Command.OnBindings) (depth : Nat) (host : σ) :
    (program.execute (Program.invoke code depth) depth (State.initial host)).state.Coherent := by
  have keeps : (Conduct.coherence κ σ).Keeps (Program.invoke code depth) :=
    Program.keeps_invoke trivial (fun invoke depth keeps _ command _ allowed =>
      Engine.coherent_perform depth keeps command allowed) within depth
  have run : (Conduct.coherence κ σ).Meets (State.initial host) (fun _ _ => True)
      (program.execute (Program.invoke code depth) depth (State.initial host)) :=
    Program.meets_execute trivial (fun command _ allowed =>
      Engine.coherent_perform depth keeps command allowed) uses (State.coherent_initial host)
  exact run.holds_state trivial

/-- However a run ends or is stopped, subscriptions are exact; and whenever a binding is
evaluated, those in a registry before and after stand there in the same order. -/
theorem subscriptions_exact {α : Type} (code : κ → Occasion κ → Program κ σ Value)
    (within : ∀ body value, (code body (.updated value)).Uses Command.OnBindings)
    (program : Program κ σ α) (uses : program.Uses Command.OnBindings) (depth : Nat)
    (host : σ) :
    (program.execute (Program.invoke code depth) depth (State.initial host)).state.Subscribed ∧
    ∀ (invoke : Invoke κ σ) (state : State κ σ) (id : SubscriberId) (binding : Binding κ),
      state.observer = none → state.binding? id = some binding →
      binding.formula.callsNone binding.context.methods = true →
      ∀ registry,
        (state.store.subscribers registry).filter
            (· ∈ (Engine.evaluateBinding invoke id binding state).state.store.subscribers
              registry) =
          ((Engine.evaluateBinding invoke id binding state).state.store.subscribers
            registry).filter (· ∈ state.store.subscribers registry) := by
  constructor
  · exact (Program.coherent_execute within uses depth host).subscribed
  · intro invoke state id binding idle found plain registry
    rw [Engine.evaluateBinding_eq invoke id plain idle]
    exact State.filter_subscribers_evaluated found registry

def relay : Bool → Occasion Bool → Program Bool Unit Value
  | true, .updated value => do
      Program.run (.write (.field ⟨0⟩ "shown") value)
      pure value
  | _, _ => pure .null

/-- Binds a field to the one that the other binding writes, and drops that binding. -/
def relayed : Program Bool Unit SubscriberId := do
  let root ← Program.run (.newRecord [("name", .text "a"), ("shown", .null)])
  Program.run (.instrument root)
  let reader ← Program.run
    (.bind "shown" (.expression (.identifier "shown")) ⟨root, .empty⟩ false)
  let writer ← Program.run
    (.bind "name" (.expression (.identifier "name")) ⟨root, .empty⟩ true)
  Program.run (.write (.field root "name") (.text "b"))
  Program.run (.drop writer)
  pure reader

theorem relay_uses (body : Bool) (value : Value) :
    (relay body (.updated value)).Uses Command.OnBindings := by
  cases body with
  | false => trivial
  | true => exact Program.uses_bind (Program.uses_run trivial) (fun _ => trivial)

theorem relayed_uses : relayed.Uses Command.OnBindings := by
  apply Program.uses_bind (Program.uses_run trivial)
  intro root
  apply Program.uses_bind (Program.uses_run trivial)
  intro _
  apply Program.uses_bind (Program.uses_run rfl)
  intro reader
  apply Program.uses_bind (Program.uses_run rfl)
  intro writer
  apply Program.uses_bind (Program.uses_run trivial)
  intro _
  exact Program.uses_bind (Program.uses_run trivial) (fun _ => trivial)

/-- The reader stays subscribed, and the writer has left. -/
theorem subscriptions_exact_relayed :
    (relayed.execute (Program.invoke relay 2) 2 (State.initial ())).state.Subscribed ∧
    (relayed.execute (Program.invoke relay 2) 2 (State.initial ())).state.store.registries =
      #[[], [⟨0⟩]] :=
  ⟨(subscriptions_exact relay relay_uses relayed relayed_uses 2 ()).1, by decide +kernel⟩

end ReactiveView
