import ReactiveView.Proofs.Performing

/-!
# The observer slot is bracketed

However callers' code calls back into the engine, and however the operations end: the
observer is afterwards who it was before, and has read what was read for it. No binding
is evaluated during an evaluation, and no reaction starts during one.
-/

namespace ReactiveView

set_option autoImplicit false

open Engine

variable {κ σ α : Type}

namespace Correspondence

def running (κ σ : Type) : Correspondence κ σ where
  toPassage := .moves κ σ
  holds := fun body _ state => ∀ outcome later, body state = .ended outcome later →
    ∃ reads, Runs (fun _ => False) body state reads outcome later
  stops := nofun
  fails := by
    rintro _ error state outcome later ⟨⟩
    exact ⟨[], .failed error state⟩
  changes := by
    rintro _ change state moves outcome later ⟨⟩
    exact ⟨[], .changed moves⟩
  reads := by
    rintro place state outcome later ⟨⟩
    exact ⟨_, .read place state⟩
  binds := by
    intro _ _ first _ second _ state here next outcome later ended
    cases ran : first state with
    | stopped between =>
        simp only [Bind.bind, Engine.bind, ran] at ended
        cases ended
    | ended result between =>
        obtain ⟨reads, run⟩ := here result between ran
        cases result with
        | error error =>
            rw [bind_of_error ran] at ended
            cases ended
            exact ⟨reads, .broken second run⟩
        | ok value =>
            rw [bind_of_ok ran] at ended
            obtain ⟨others, run'⟩ := next value between ran outcome later ended
            exact ⟨reads ++ others, .bind run run'⟩
  attempts := by
    intro _ body _ state here outcome later ended
    cases ran : body state with
    | stopped between =>
        simp only [Engine.attempt, ran] at ended
        cases ended
    | ended result between =>
        obtain ⟨reads, run⟩ := here result between ran
        simp only [Engine.attempt, ran] at ended
        cases ended
        exact ⟨reads, .attempt run⟩
  runs := by
    intro _ body _ id state here outcome later ended
    rw [whileRunning_eq] at ended
    cases ran : body (state.enter id) with
    | stopped between =>
        rw [ran] at ended
        cases ended
    | ended result between =>
        obtain ⟨reads, run⟩ := here result between ran
        rw [ran] at ended
        cases ended
        exact ⟨reads, .running id run⟩
  suspends := by
    intro _ body _ state here outcome later ended
    rw [untracked_eq] at ended
    cases ran : body { state with observer := none } with
    | stopped between =>
        rw [ran] at ended
        cases ended
    | ended result between =>
        obtain ⟨reads, run⟩ := here result between ran
        have vacated : between.observer = none := run.observer
        rw [ran] at ended
        cases ended
        rw [vacated, Option.or_none]
        exact ⟨[], .untracked run⟩
  refuses := by
    intro invoke _ id binding state observer occupied outcome later ended
    rw [evaluateBinding_of_observed occupied] at ended
    cases ended
    exact ⟨[], .refused id binding occupied⟩
  evaluates := by
    intro invoke _ id binding state idle here outcome later ended
    rw [evaluateBinding_of_idle idle] at ended
    cases ran : evaluateFormula invoke binding.context binding.formula (state.observing id) with
    | stopped between =>
        rw [ran] at ended
        cases ended
    | ended result between =>
        obtain ⟨reads, run⟩ := here result between ran
        simp only [ran, run.observer_observing] at ended
        cases ended
        exact ⟨[], .evaluated idle nofun run⟩
  sets := fun _ _ _ _ => .single (.outside _ _ _)

def same (κ σ : Type) : Correspondence κ σ where
  toPassage := .moves κ σ
  holds := fun first second state => first state = second state
  stops := fun _ => rfl
  fails := fun _ _ => rfl
  changes := fun _ _ _ => rfl
  reads := fun _ _ => rfl
  binds := by
    intro _ _ first first' second second' state here next
    cases ran : first state with
    | stopped between =>
        rw [ran] at here
        simp only [Bind.bind, Engine.bind, ran, ← here]
    | ended result between =>
        rw [ran] at here
        cases result with
        | error error => rw [bind_of_error ran, bind_of_error here.symm]
        | ok value => rw [bind_of_ok ran, bind_of_ok here.symm, next value between ran]
  attempts := by
    intro _ body body' state here
    simp only [Engine.attempt, here]
  runs := by
    intro _ body body' id state here
    rw [whileRunning_eq, whileRunning_eq, here]
  suspends := by
    intro _ body body' state here
    rw [untracked_eq, untracked_eq, here]
  refuses := by
    intro _ _ id binding state observer occupied
    rw [evaluateBinding_of_observed occupied, evaluateBinding_of_observed occupied]
  evaluates := by
    intro _ _ id binding state idle here
    rw [evaluateBinding_of_idle idle, evaluateBinding_of_idle idle, here]
  sets := fun _ _ _ _ => .single (.outside _ _ _)

end Correspondence

namespace State

variable {state : State κ σ} {id : SubscriberId}

theorem leave_enter (alive : state.isAlive id = true) : (state.enter id).leave id = state := by
  have counted : (state.enter id).changeSubscriber id (fun subscriber =>
      { subscriber with underWay := subscriber.underWay - 1 }) = state := by
    have same : (state.subscribers.modify id.index (fun subscriber =>
        { subscriber with underWay := subscriber.underWay + 1 })).modify id.index
          (fun subscriber => { subscriber with underWay := subscriber.underWay - 1 }) =
        state.subscribers := by
      apply Array.ext_getElem?
      intro index
      simp only [Array.getElem?_modify]
      split <;> simp [Function.comp_def]
    simp only [enter, changeSubscriber, same]
  rw [leave, counted, settle_of_alive alive]

theorem store_drop {binding : Binding κ} (found : state.binding? id = some binding)
    (none : binding.subscriptions = []) : (state.drop id).store = state.store := by
  have found' : (state.changeSubscriber id (fun subscriber =>
      { subscriber with held := false })).binding? id = some binding :=
    (binding?_changeSubscriber state id releases_drop.role id).trans found
  unfold drop settle
  rw [found']
  simp only [none]
  split <;> rfl

end State

namespace Engine

variable {invoke : Invoke κ σ} {state : State κ σ} {id : SubscriberId} {binding : Binding κ}
  {observer : Observer}

theorem refresh_of_observed (occupied : state.observer = some observer) (id : SubscriberId)
    (binding : Binding κ) :
    refresh invoke id binding state = .ended (.error .nestedEvaluation) state := by
  rw [refresh, bind_of_error (evaluateBinding_of_observed occupied invoke id binding)]

theorem whileRunning_refresh_of_observed (occupied : state.observer = some observer)
    (binding : Binding κ) (alive : state.isAlive id = true) :
    whileRunning id (refresh invoke id binding) state =
      .ended (.error .nestedEvaluation) state := by
  have occupied' : (state.enter id).observer = some observer := occupied
  rw [whileRunning_eq, refresh_of_observed occupied']
  simp only [State.leave_enter alive]

/-- During an evaluation no binding is run again, and nothing changes. -/
theorem notify_of_observed (occupied : state.observer = some observer)
    (found : state.binding? id = some binding) (alive : state.isAlive id = true) :
    notify invoke id state = .ended (.error .nestedEvaluation) state := by
  obtain ⟨held, underWay, present⟩ := State.binding?_eq_some_iff.mp found
  have looked : (look (fun state => (state.subscriber? id).map Subscriber.role) :
      Engine κ σ (Option (Role κ))) state = .ended (.ok (some (.binding binding))) state := by
    simp only [look, present, Option.map_some]
  rw [notify, bind_of_ok looked]
  exact whileRunning_refresh_of_observed occupied binding alive

theorem bindFormula_of_observed (occupied : state.observer = some observer) (source : String)
    (formula : Formula) (context : Context κ) (reaction : Reaction κ) :
    ∃ later,
      bindFormula invoke source formula context reaction state =
        .ended (.error .nestedEvaluation) later ∧
      later.store = state.store ∧ later.observer = state.observer ∧
      ∀ other, other ≠ ⟨state.subscribers.size⟩ →
        later.subscriber? other = state.subscriber? other := by
  let binding : Binding κ := ⟨source, formula, context, reaction, [], none, none⟩
  let id : SubscriberId := ⟨state.subscribers.size⟩
  let added := (state.addSubscriber ⟨.binding binding, true, 0⟩).2
  have found : added.binding? id = some binding := State.binding?_addSubscriber state binding
  have alive : added.isAlive id = true := by
    simp only [State.isAlive, added, id, State.subscriber?_addSubscriber]
    rfl
  have start : (transform (State.addSubscriber ⟨.binding binding, true, 0⟩) :
      Engine κ σ SubscriberId) state = .ended (.ok id) added := rfl
  have refused : whileRunning id (refresh invoke id binding) added =
      .ended (.error .nestedEvaluation) added :=
    whileRunning_refresh_of_observed (show added.observer = some observer from occupied)
      binding alive
  have tried : attempt (whileRunning id (refresh invoke id binding)) added =
      .ended (.ok (.error .nestedEvaluation)) added := by
    simp only [attempt, refused]
  refine ⟨added.drop id, ?_, ?_, ?_, ?_⟩
  · rw [bindFormula, bind_of_ok start, bind_of_ok tried]
    rfl
  · exact State.store_drop found rfl
  · exact State.observer_settle _ id
  · have same := (State.sameButFor_addSubscriber state ⟨.binding binding, true, 0⟩).trans
      (State.sameButFor_release added id (fun subscriber => { subscriber with held := false }))
    exact same.others

end Engine

namespace Program

/-- Callers' code whose reactions would do something else if one started during an
evaluation. -/
def guarded (code : κ → Occasion κ → Program κ σ Value) (other : κ → Value → Program κ σ Value)
    (body : κ) : Occasion κ → Program κ σ Value
  | .updated value => inspect (fun state =>
      if state.isTracking then other body value else code body (.updated value))
  | occasion => code body occasion

theorem joins_guarded (code : κ → Occasion κ → Program κ σ Value)
    (other : κ → Value → Program κ σ Value) (depth : Nat) :
    (Correspondence.same κ σ).Joins (invoke (guarded code other) depth) (invoke code depth) := by
  induction depth with
  | zero => exact fun _ _ _ _ => rfl
  | succ depth induction =>
      intro body occasion state idle
      have inner := corresponds_execute induction Passage.free_moves depth
        (asks_anything (code body occasion)) state
      cases occasion with
      | updated value =>
          have open' : state.isTracking = false := by
            simp only [State.isTracking, idle value rfl, Option.isSome_none]
          change (if state.isTracking then other body value
            else code body (.updated value)).execute (invoke (guarded code other) depth) depth
              state = _
          rw [open']
          exact inner
      | _ => exact inner

end Program

/-- However a computation ends, the slot shows of it the reads that were made for the
observer it found, and nothing else. -/
def Engine.Brackets (body : Engine κ σ α) : Prop :=
  ∀ state outcome later, body state = .ended outcome later →
    ∃ reads, Runs (fun _ => False) body state reads outcome later ∧
      later.observer = state.observer.map (fun observer => reads.foldl Observer.see observer)

/-- What the operations, and callers' code that calls back into them, make of the observer
slot. -/
structure Bracketed (code : κ → Occasion κ → Program κ σ Value) (depth : Nat) : Prop where
  operations : ∀ {α : Type} (command : Command κ α),
    (command.perform (Program.invoke code depth) depth).Brackets
  programs : ∀ {α : Type} (program : Program κ σ α),
    (program.execute (Program.invoke code depth) depth).Brackets
  untracked : ∀ context formula state outcome later,
    Engine.evaluateUntracked (Program.invoke code depth) context formula state =
      .ended outcome later → later.observer = state.observer
  /-- A binding is not evaluated during an evaluation, whoever asks for it. -/
  refused : ∀ state observer id binding, state.observer = some observer →
    state.binding? id = some binding → state.isAlive id = true →
    evaluateBinding (Program.invoke code depth) id binding state =
        .ended (.error .nestedEvaluation) state ∧
      notify (Program.invoke code depth) id state = .ended (.error .nestedEvaluation) state ∧
      Engine.reevaluate (Program.invoke code depth) id state =
        .ended (.error .nestedEvaluation) state
  /-- Nor does one come into being. -/
  refusedNew : ∀ state observer source formula context reaction,
    state.observer = some observer →
    ∃ later,
      bindFormula (Program.invoke code depth) source formula context reaction state =
        .ended (.error .nestedEvaluation) later ∧
      later.store = state.store ∧ later.observer = state.observer ∧
      ∀ id, id ≠ ⟨state.subscribers.size⟩ → later.subscriber? id = state.subscriber? id
  /-- An evaluation goes by what was read for the binding that it is of. -/
  attributed : ∀ state id binding outcome later, state.observer = none →
    evaluateBinding (Program.invoke code depth) id binding state = .ended outcome later →
    ∃ reads final,
      Runs (fun _ => False)
        (evaluateFormula (Program.invoke code depth) binding.context binding.formula)
        (state.observing id) reads outcome final ∧
      final.observer = some ⟨id, reads.eraseDups⟩ ∧
      later = State.reconcile id reads.eraseDups state.store outcome
        { final with observer := none } ∧
      later.isTracking = false
  /-- What reactions would do during an evaluation makes no difference to any run. -/
  reactions : ∀ {α : Type} (other : κ → Value → Program κ σ Value) (program : Program κ σ α),
    program.execute (Program.invoke (Program.guarded code other) depth) depth =
      program.execute (Program.invoke code depth) depth

theorem joins_running (code : κ → Occasion κ → Program κ σ Value) (depth : Nat) :
    (Correspondence.running κ σ).Joins (Program.invoke code depth) (Program.invoke code depth) :=
  Program.joins_invoke Passage.free_moves (fun _ _ => Program.asks_anything _) depth

theorem Engine.attributed_evaluateBinding {code : κ → Occasion κ → Program κ σ Value}
    {depth : Nat} {state later : State κ σ} {id : SubscriberId} {binding : Binding κ}
    {outcome : Except Error Value} (idle : state.observer = none)
    (ended : evaluateBinding (Program.invoke code depth) id binding state =
      .ended outcome later) :
    ∃ reads final,
      Runs (fun _ => False)
        (evaluateFormula (Program.invoke code depth) binding.context binding.formula)
        (state.observing id) reads outcome final ∧
      final.observer = some ⟨id, reads.eraseDups⟩ ∧
      later = State.reconcile id reads.eraseDups state.store outcome
        { final with observer := none } ∧
      later.isTracking = false := by
  rw [evaluateBinding_of_idle idle] at ended
  cases ran : evaluateFormula (Program.invoke code depth) binding.context binding.formula
      (state.observing id) with
  | stopped final =>
      rw [ran] at ended
      cases ended
  | ended result final =>
      obtain ⟨reads, runs⟩ := corresponds_evaluateFormula (joins_running code depth)
        binding.context binding.formula _ result final ran
      simp only [ran, runs.observer_observing] at ended
      cases ended
      refine ⟨reads, final, runs, runs.observer_observing, rfl, ?_⟩
      simp only [State.isTracking, State.observer_reconcile, Option.isSome_none]

theorem Engine.brackets_of_corresponds {body : Engine κ σ α}
    (corresponds : ∀ state, (Correspondence.running κ σ).holds body body state) :
    body.Brackets := by
  intro state outcome later ended
  obtain ⟨reads, runs⟩ := corresponds state outcome later ended
  exact ⟨reads, runs, runs.observer⟩

/-- Whatever callers' code there is, and however deep it nests. -/
theorem observer_slot_bracketed (code : κ → Occasion κ → Program κ σ Value) (depth : Nat) :
    Bracketed code depth where
  operations := fun command =>
    brackets_of_corresponds
      (command.corresponds_perform (joins_running code depth) Passage.free_moves depth
        (fun _ _ => trivial))
  programs := fun program =>
    brackets_of_corresponds
      (Program.corresponds_execute (joins_running code depth) Passage.free_moves depth
        (Program.asks_anything program))
  untracked := by
    intro context formula state outcome later ended
    rw [Engine.evaluateUntracked, untracked_eq] at ended
    cases ran : evaluateFormula (Program.invoke code depth) context formula
        { state with observer := none } with
    | stopped final =>
        rw [ran] at ended
        cases ended
    | ended result final =>
        obtain ⟨reads, runs⟩ :=
          corresponds_evaluateFormula (joins_running code depth) context formula _ result final
            ran
        have vacated : final.observer = none := runs.observer
        rw [ran] at ended
        cases ended
        simp only [vacated, Option.or_none]
  refused := by
    intro state observer id binding occupied found alive
    have notified : notify (Program.invoke code depth) id state =
        .ended (.error .nestedEvaluation) state :=
      notify_of_observed occupied found alive
    refine ⟨evaluateBinding_of_observed occupied _ id binding, notified, ?_⟩
    have looked : (look (fun state => state.isAlive id) : Engine κ σ Bool) state =
        .ended (.ok true) state := by
      simp only [look, alive]
    rw [Engine.reevaluate, bind_of_ok looked]
    exact notified
  refusedNew := fun _ _ source formula context reaction occupied =>
    bindFormula_of_observed occupied source formula context reaction
  attributed := fun _ _ _ _ _ idle ended => attributed_evaluateBinding idle ended
  reactions := by
    intro _ other program
    funext state
    exact Program.corresponds_execute (Program.joins_guarded code other depth) Passage.free_moves
      depth (Program.asks_anything program) state

def glance : Unit → Occasion Unit → Program Unit Unit Value
  | (), .called context _ => do
      let _ ← Program.run (.evaluateUntracked context (.expression (.identifier "aside")))
      Program.run (.evaluate context (.expression (.identifier "open")))
  | _, _ => pure .null

def glanced : Program Unit Unit SubscriberId := do
  let root ← Program.run (.newRecord [("aside", .null), ("open", .null)])
  Program.run (.instrument root)
  let methods := Dictionary.ofList [("glance", ())]
  Program.run (.bind "glance()" (.expression (.call (.identifier "glance") []))
    ⟨root, methods⟩ ())

/-- Of two fields that the method of a binding reads, one of them aside, the binding depends on
the other one. -/
theorem observer_slot_bracketed_glanced :
    Bracketed glance 3 ∧
    ((glanced.execute (Program.invoke glance 3) 3 (State.initial ())).state.binding?
      ⟨0⟩).map Binding.subscriptions = some [⟨1⟩] :=
  ⟨observer_slot_bracketed glance 3, by decide +kernel⟩

end ReactiveView
