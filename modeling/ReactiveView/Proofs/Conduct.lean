import ReactiveView.Proofs.Changes
import ReactiveView.Proofs.Coherence
import ReactiveView.Reactive.Program

/-!
# What a run keeps up

An invariant of the moments at which callers have control, with a relation between
an earlier and a later one of them. If callers' code keeps it up, and every step of
the engine does, then so do notification passes and the operations on bindings,
however passes and callers' code are nested in one another.
-/

namespace ReactiveView

set_option autoImplicit false

/-- What is kept up. -/
structure Conduct (κ σ : Type) where
  holds : State κ σ → Prop
  related : State κ σ → State κ σ → Prop
  admits : Binding κ → Prop
  settled : SubscriberId → State κ σ → Prop
  /-- It is kept up even when something fails. -/
  tolerant : Prop
  coherent : ∀ {state}, holds state → state.Coherent
  admitted : ∀ {state id binding}, holds state → state.binding? id = some binding →
    admits binding
  same : ∀ {state later}, state.SameCore later → holds state →
    holds later ∧ related state later
  trans : ∀ {state later final}, related state later → related later final →
    related state final
  remains : ∀ {id state later}, related state later → settled id state → settled id later
  attempts : ∀ {id binding state start}, holds state → state.SameButFor id start →
    start.observer = none → start.Linked id → start.binding? id = some binding →
    start.isAlive id = true → admits binding →
    (∀ error, (binding.account start.store).outcome = .error error → tolerant) →
    holds (start.attempted id binding) ∧ related state (start.attempted id binding) ∧
      settled id (start.attempted id binding)
  releases : ∀ {state change} (id : SubscriberId), State.Releases change → holds state →
    holds (state.release id change) ∧ related state (state.release id change)
  /-- Who was in a registry and is there no longer has had its turn in between. -/
  left : ∀ {id registry state later}, holds state → holds later → related state later →
    id ∈ state.store.subscribers registry → id ∉ later.store.subscribers registry →
    settled id later

namespace Conduct

variable {κ σ α β : Type} (conduct : Conduct κ σ)

/-- A computation from a state goes as it should: if it ends well, with a further
condition on its result and the final state. -/
def Meets (state : State κ σ) (post : α → State κ σ → Prop) : Course κ σ α → Prop
  | .ended (.ok value) later =>
      conduct.holds later ∧ conduct.related state later ∧ post value later
  | .ended (.error _) later =>
      conduct.tolerant → conduct.holds later ∧ conduct.related state later
  | .stopped later => conduct.tolerant → conduct.holds later

/-- Callers' reactions keep it up. -/
def Keeps (invoke : Invoke κ σ) : Prop :=
  ∀ body value state, conduct.holds state →
    conduct.Meets state (fun _ _ => True) (invoke body (.updated value) state)

/-- A reaction keeps it up on each value. -/
def Suits (invoke : Invoke κ σ) (reaction : Reaction κ) : Prop :=
  ∀ value state, conduct.holds state →
    conduct.Meets state (fun _ _ => True) (Engine.react invoke reaction value state)

variable {conduct} {state later : State κ σ} {post middle : α → State κ σ → Prop}

theorem Meets.after {course : Course κ σ α} (before : conduct.related state later)
    (meets : conduct.Meets later post course) : conduct.Meets state post course := by
  cases course with
  | stopped final => exact meets
  | ended outcome final =>
      cases outcome with
      | ok value => exact ⟨meets.1, conduct.trans before meets.2.1, meets.2.2⟩
      | error error =>
          intro tolerant
          exact ⟨(meets tolerant).1, conduct.trans before (meets tolerant).2⟩

theorem Meets.weaken {post' : α → State κ σ → Prop} {course : Course κ σ α}
    (meets : conduct.Meets state post course)
    (weaker : ∀ value later, conduct.related state later → post value later →
      post' value later) :
    conduct.Meets state post' course := by
  cases course with
  | stopped final => exact meets
  | ended outcome final =>
      cases outcome with
      | ok value => exact ⟨meets.1, meets.2.1, weaker value final meets.2.1 meets.2.2⟩
      | error error => exact meets

theorem Meets.ended (tolerant : conduct.tolerant) {outcome : Except Error α}
    (meets : conduct.Meets state post (.ended outcome later)) :
    conduct.holds later ∧ conduct.related state later := by
  cases outcome with
  | ok value => exact ⟨meets.1, meets.2.1⟩
  | error error => exact meets tolerant

theorem Meets.holds_state (tolerant : conduct.tolerant) {course : Course κ σ α}
    (meets : conduct.Meets state post course) : conduct.holds course.state := by
  cases course with
  | stopped later => exact meets tolerant
  | ended outcome later => exact (meets.ended tolerant).1

theorem meets_pure (holds : conduct.holds state) {value : α} (held : post value state) :
    conduct.Meets state post ((pure value : Engine κ σ α) state) :=
  ⟨holds, (conduct.same (.refl state) holds).2, held⟩

theorem meets_bind {first : Engine κ σ α} {second : α → Engine κ σ β}
    {final : β → State κ σ → Prop} {start : State κ σ}
    (meets : conduct.Meets state middle (first start))
    (next : ∀ value later, conduct.holds later → conduct.related state later →
      middle value later → conduct.Meets later final (second value later)) :
    conduct.Meets state final ((first >>= second) start) := by
  simp only [Bind.bind, Engine.bind]
  cases ran : first start with
  | stopped later =>
      rw [ran] at meets
      exact meets
  | ended outcome later =>
      rw [ran] at meets
      cases outcome with
      | ok value => exact (next value later meets.1 meets.2.1 meets.2.2).after meets.2.1
      | error error => exact meets

/-- It is not about documents, so what sets something there suits it. -/
theorem suits_of_document {invoke : Invoke κ σ} {reaction : Reaction κ}
    (document : ∀ body, reaction ≠ .code body) : conduct.Suits invoke reaction := by
  intro value state holds
  have same {document : Document (Listener κ)} : conduct.holds { state with document } ∧
      conduct.related state { state with document } :=
    conduct.same ⟨rfl, rfl, rfl⟩ holds
  cases reaction with
  | code body => exact absurd rfl (document body)
  | textContent node => exact ⟨same.1, same.2, trivial⟩
  | renderedText node => exact ⟨same.1, same.2, trivial⟩
  | property node name => exact ⟨same.1, same.2, trivial⟩

theorem Keeps.suits {invoke : Invoke κ σ} (keeps : conduct.Keeps invoke)
    (reaction : Reaction κ) : conduct.Suits invoke reaction := by
  cases reaction with
  | code body =>
      intro value state holds
      apply meets_bind (keeps body value state holds)
      intro _ later holds' _ _
      exact meets_pure holds' trivial
  | _ => exact suits_of_document (fun _ => nofun)

theorem Meets.released (id : SubscriberId) {change : Subscriber κ → Subscriber κ}
    (releases : State.Releases change) {outcome : Except Error α}
    (meets : conduct.Meets state post (.ended outcome later)) :
    conduct.Meets state (fun value final => conduct.related later final ∧ post value later)
      (.ended outcome (later.release id change)) := by
  cases outcome with
  | ok value =>
      obtain ⟨holds, related, held⟩ := meets
      obtain ⟨holds', related'⟩ := conduct.releases id releases holds
      exact ⟨holds', conduct.trans related related', related', held⟩
  | error error =>
      intro tolerant
      obtain ⟨holds, related⟩ := meets tolerant
      obtain ⟨holds', related'⟩ := conduct.releases id releases holds
      exact ⟨holds', conduct.trans related related'⟩

end Conduct

namespace Engine

variable {κ σ : Type} {conduct : Conduct κ σ} {invoke : Invoke κ σ} {state : State κ σ}
  {id : SubscriberId} {binding : Binding κ}

theorem whileRunning_eq {α : Type} (id : SubscriberId) (body : Engine κ σ α)
    (state : State κ σ) :
    whileRunning id body state =
      match body (state.enter id) with
      | .ended outcome later => .ended outcome (later.leave id)
      | .stopped later => .stopped later := by
  have start : (alter (State.enter id) : Engine κ σ Unit) state =
      .ended (.ok ()) (state.enter id) := rfl
  rw [whileRunning, bind_of_ok start]
  cases ran : body (state.enter id) with
  | stopped later => simp only [Bind.bind, bind, attempt, ran]
  | ended outcome later =>
      have tried : attempt body (state.enter id) = .ended (.ok outcome) later := by
        simp only [attempt, ran]
      rw [bind_of_ok tried]
      rfl

theorem meets_refresh (suits : conduct.Suits invoke binding.reaction) {start : State κ σ}
    (holds : conduct.holds state) (same : state.SameButFor id start)
    (idle : start.observer = none) (linked : start.Linked id)
    (found : start.binding? id = some binding) (alive : start.isAlive id = true)
    (admitted : conduct.admits binding) :
    conduct.Meets state (fun _ later => conduct.settled id later)
      (refresh invoke id binding start) := by
  have evaluation := evaluateBinding_eq invoke id (linked.plain binding found).callsNone idle
  have attempts := conduct.attempts holds same idle linked found alive admitted
  cases ended : (binding.account start.store).outcome with
  | error error =>
      rw [ended] at evaluation
      rw [refresh, bind_of_error evaluation]
      intro tolerant
      have after := attempts (fun _ _ => tolerant)
      rw [State.attempted_of_error ended] at after
      exact ⟨after.1, after.2.1⟩
  | ok value =>
      rw [ended] at evaluation
      have after := attempts (by
        intro error impossible
        rw [ended] at impossible
        cases impossible)
      rw [State.attempted_of_ok ended] at after
      obtain ⟨holds', related, settled⟩ := after
      have handed : (alter (State.hand id value) : Engine κ σ Unit)
          (start.evaluated id binding) =
            .ended (.ok ()) ((start.evaluated id binding).hand id value) := rfl
      rw [refresh, bind_of_ok evaluation, bind_of_ok handed]
      have run : conduct.Meets ((start.evaluated id binding).hand id value)
          (fun _ later => conduct.settled id later)
          (react invoke binding.reaction value ((start.evaluated id binding).hand id value)) :=
        (suits value _ holds').weaken (fun _ _ related' _ => conduct.remains related' settled)
      exact run.after related

theorem meets_whileRunning {α : Type} {post : α → State κ σ → Prop} {body : Engine κ σ α}
    {start : State κ σ}
    (stable : ∀ value later final, conduct.related later final → post value later →
      post value final)
    (meets : conduct.Meets state post (body (start.enter id))) :
    conduct.Meets state post (whileRunning id body start) := by
  rw [whileRunning_eq]
  cases ran : body (start.enter id) with
  | stopped later =>
      rw [ran] at meets
      exact meets
  | ended outcome later =>
      rw [ran] at meets
      apply (meets.released id State.releases_leave).weaken
      intro value final _ held
      exact stable value later final held.1 held.2

theorem meets_notify
    (suits : ∀ binding, state.binding? id = some binding → conduct.Suits invoke binding.reaction)
    (holds : conduct.holds state) (alive : state.isAlive id = true) :
    conduct.Meets state (fun _ later => conduct.settled id later) (notify invoke id state) := by
  have coherent := conduct.coherent holds
  obtain ⟨subscriber, found, -⟩ := (Option.any_eq_true _ _).mp alive
  obtain ⟨binding, role⟩ := (coherent.exact id).role subscriber found
  have present : state.binding? id = some binding := by
    obtain ⟨role', held, underWay⟩ := subscriber
    cases role
    exact State.binding?_eq_some_iff.mpr ⟨held, underWay, found⟩
  have looked : (look (fun state => (state.subscriber? id).map Subscriber.role) :
      Engine κ σ (Option (Role κ))) state = .ended (.ok (some (.binding binding))) state := by
    simp only [look, found, Option.map_some, role]
  rw [notify, bind_of_ok looked]
  apply meets_whileRunning
  · intro _ later final related settled
    exact conduct.remains related settled
  · apply meets_refresh (suits binding present) holds (State.sameButFor_changeSubscriber state id _)
    · exact coherent.idle
    · exact (coherent.exact id).toLinked.changeSubscriber (fun _ => rfl)
    · rw [← present]
      exact State.binding?_enter state id id
    · exact State.isAlive_enter_self present
    · exact conduct.admitted holds present

/-- In a pass from an earlier state on, a subscriber from then has its turn, or has had
it. -/
theorem meets_takeTurn (keeps : conduct.Keeps invoke) {first : State κ σ}
    {registry : RegistryId} (began : conduct.holds first) (holds : conduct.holds state)
    (related : conduct.related first state)
    (member : id ∈ first.store.subscribers registry) :
    conduct.Meets state (fun _ later => conduct.settled id later)
      (takeTurn invoke registry id state) := by
  change conduct.Meets state _ ((if decide (id ∈ state.store.subscribers registry) then
    (if state.isAlive id then notify invoke id
      else alter (State.changeStore (·.unregister registry id)))
    else pure ()) state)
  by_cases present : id ∈ state.store.subscribers registry
  · have alive := (conduct.coherent holds).alive present
    simp only [present, decide_true, if_true, alive]
    exact meets_notify (fun binding _ => keeps.suits binding.reaction) holds alive
  · simp only [present, decide_false, Bool.false_eq_true, if_false]
    exact Conduct.meets_pure holds (conduct.left began holds related member present)

/-- After a pass that ends well every subscriber from its beginning has had its turn. -/
theorem meets_notifyAll (keeps : conduct.Keeps invoke) (holds : conduct.holds state)
    (registry : RegistryId) :
    conduct.Meets state
      (fun _ later => ∀ id ∈ state.store.subscribers registry, conduct.settled id later)
      (notifyAll invoke registry state) := by
  -- by induction on those still to come, with the beginning of the pass fixed: whoever
  -- had its turn stays settled through the turns of the others
  have turns (ids : List SubscriberId) (among : ∀ id ∈ ids,
      id ∈ state.store.subscribers registry) (now : State κ σ) (holds' : conduct.holds now)
      (related : conduct.related state now) :
      conduct.Meets now (fun _ later => ∀ id ∈ ids, conduct.settled id later)
        (forEach (takeTurn invoke registry) ids now) := by
    induction ids generalizing now with
    | nil => exact Conduct.meets_pure holds' (by simp)
    | cons id rest induction =>
        refine Conduct.meets_bind
          (meets_takeTurn keeps holds holds' related (among id List.mem_cons_self)) ?_
        intro _ later holds'' related' settled
        refine (induction (fun other member => among other (List.mem_cons_of_mem _ member))
          later holds'' (conduct.trans related related')).weaken ?_
        intro _ final related'' rest other member
        rcases List.mem_cons.mp member with rfl | member
        · exact conduct.remains related'' settled
        · exact rest other member
  exact turns _ (fun _ => id) state holds (conduct.same (.refl state) holds).2

theorem meets_reevaluate (keeps : conduct.Keeps invoke) (holds : conduct.holds state)
    (id : SubscriberId) :
    conduct.Meets state (fun _ _ => True) (reevaluate invoke id state) := by
  change conduct.Meets state _ ((if state.isAlive id then notify invoke id else pure ()) state)
  by_cases alive : state.isAlive id = true
  · rw [if_pos alive]
    exact (meets_notify (fun binding _ => keeps.suits binding.reaction) holds alive).weaken
      (fun _ _ _ _ => trivial)
  · rw [if_neg alive]
    exact Conduct.meets_pure holds trivial

theorem meets_drop (holds : conduct.holds state) (id : SubscriberId) :
    conduct.Meets state (fun _ _ => True)
      ((alter (State.drop id) : Engine κ σ Unit) state) := by
  obtain ⟨holds', related⟩ := conduct.releases id State.releases_drop holds
  exact ⟨holds', related, trivial⟩

theorem meets_bindFormula {reaction : Reaction κ} (suits : conduct.Suits invoke reaction)
    (holds : conduct.holds state) (source : String) {formula : Formula} {context : Context κ}
    (plain : formula.callsNone context.methods = true)
    (admitted : conduct.admits ⟨source, formula, context, reaction, [], none, none⟩) :
    conduct.Meets state (fun _ _ => True)
      (bindFormula invoke source formula context reaction state) := by
  let binding : Binding κ := ⟨source, formula, context, reaction, [], none, none⟩
  let id : SubscriberId := ⟨state.subscribers.size⟩
  let added := (state.addSubscriber ⟨.binding binding, true, 0⟩).2
  have coherent := conduct.coherent holds
  have found : added.binding? id = some binding := State.binding?_addSubscriber state binding
  have linked : added.Linked id := coherent.enrolled.linked_addSubscriber ⟨plain⟩ rfl
  have start : (transform (State.addSubscriber ⟨.binding binding, true, 0⟩) :
      Engine κ σ SubscriberId) state = .ended (.ok id) added := rfl
  -- what is kept up need not hold of the new binding before its first evaluation, so
  -- the run is compared with the state from before it
  have run : conduct.Meets state (fun _ later => conduct.settled id later)
      (whileRunning id (refresh invoke id binding) added) := by
    apply meets_whileRunning
    · intro _ later final related settled
      exact conduct.remains related settled
    · apply meets_refresh (show conduct.Suits invoke binding.reaction from suits) holds
      · exact (State.sameButFor_addSubscriber state _).trans
          (State.sameButFor_changeSubscriber added id _)
      · exact coherent.idle
      · exact linked.changeSubscriber (fun _ => rfl)
      · rw [← found]
        exact State.binding?_enter added id id
      · exact State.isAlive_enter_self found
      · exact admitted
  rw [bindFormula, bind_of_ok start]
  cases ran : whileRunning id (refresh invoke id binding) added with
  | stopped later =>
      rw [ran] at run
      simp only [Bind.bind, bind, attempt, ran, binding]
      exact run
  | ended outcome later =>
      rw [ran] at run
      have tried : attempt (whileRunning id (refresh invoke id binding)) added =
          .ended (.ok outcome) later := by
        simp only [attempt, ran]
      rw [bind_of_ok tried]
      cases outcome with
      | ok result => exact ⟨run.1, run.2.1, trivial⟩
      | error error => exact run.released id State.releases_drop

/-- Outside evaluations a read leaves no trace. -/
theorem perform_read (depth : Nat) (place : Place) (idle : state.observer = none) :
    (Command.read place : Command κ (Option Value)).perform invoke depth state =
      .ended (.ok (state.read place).1) state := by
  have unchanged : (state.read place).2 = state := State.noteAll_of_unobserved idle [.slot place]
  have run : (Command.read place : Command κ (Option Value)).perform invoke depth state =
      .ended (.ok (state.read place).1) (state.read place).2 := rfl
  rw [run, unchanged]

theorem write_of_reactive {place : Place} {old : Value} {registry : RegistryId}
    (found : state.store.slot? place = some ⟨old, some registry⟩) (value : Value) :
    write invoke place value state =
      notifyAll invoke registry
        (state.changeStore (fun store => store.overwrite place value registry)) := by
  have store : (look State.store : Engine κ σ Store) state = .ended (.ok state.store) state := rfl
  rw [write, bind_of_ok store]
  simp only [found]
  rfl

theorem write_of_plain {place : Place} {old : Value}
    (found : state.store.slot? place = some ⟨old, none⟩) (value : Value) :
    write invoke place value state =
      .ended (.ok ()) (state.changeStore (·.put place (.plain value))) := by
  have store : (look State.store : Engine κ σ Store) state = .ended (.ok state.store) state := rfl
  rw [write, bind_of_ok store]
  simp only [found]
  rfl

theorem write_of_absent {place : Place} (absent : state.store.slot? place = none)
    (value : Value) :
    write invoke place value state =
        .ended (.ok ()) (state.changeStore (·.put place (.plain value))) ∨
      ∃ error, write invoke place value state = .ended (.error error) state := by
  have store : (look State.store : Engine κ σ Store) state = .ended (.ok state.store) state := rfl
  rw [write, bind_of_ok store]
  cases place with
  | field record key =>
      left
      simp only [absent]
      rfl
  | item list index =>
      right
      simp only [absent]
      exact ⟨_, rfl⟩

end Engine

namespace Program

variable {κ σ α : Type}

/-- A program performs only commands of a certain kind, whatever their outcomes and
whatever it sees of the state. -/
def Uses (allowed : {β : Type} → Command κ β → Prop) : Program κ σ α → Prop
  | done _ => True
  | stop => True
  | inspect next => ∀ state, (next state).Uses allowed
  | record _ next => next.Uses allowed
  | perform command next => allowed command ∧ ∀ outcome, (next outcome).Uses allowed

variable {conduct : Conduct κ σ} {allowed : {β : Type} → Command κ β → Prop}

theorem uses_run {command : Command κ α} (permitted : allowed command) :
    (run command : Program κ σ α).Uses allowed := ⟨permitted, fun _ => trivial⟩

theorem uses_bind {β : Type} {first : Program κ σ α} {second : α → Program κ σ β}
    (uses : first.Uses allowed) (next : ∀ value, (second value).Uses allowed) :
    (first >>= second).Uses allowed := by
  change (first.andThen second).Uses allowed
  induction first with
  | done outcome =>
      cases outcome with
      | ok value => exact next value
      | error error => trivial
  | stop => trivial
  | inspect after induction => exact fun state => induction state (uses state)
  | record change after induction => exact induction uses
  | perform command after induction =>
      exact ⟨uses.1, fun outcome => induction outcome (uses.2 outcome)⟩

theorem meets_execute (tolerant : conduct.tolerant) {invoke : Invoke κ σ} {depth : Nat}
    (performs : ∀ {β : Type} (command : Command κ β) (state : State κ σ), allowed command →
      conduct.holds state →
      conduct.Meets state (fun _ _ => True) (command.perform invoke depth state))
    {program : Program κ σ α} (uses : program.Uses allowed) {state : State κ σ}
    (holds : conduct.holds state) :
    conduct.Meets state (fun _ _ => True) (program.execute invoke depth state) := by
  induction program generalizing state with
  | done outcome =>
      have unchanged := (conduct.same (.refl state) holds).2
      cases outcome with
      | ok value => exact ⟨holds, unchanged, trivial⟩
      | error error => exact fun _ => ⟨holds, unchanged⟩
  | stop => exact fun _ => holds
  | inspect next induction => exact induction state (uses state) holds
  | record change next induction =>
      have core : state.SameCore { state with host := change state.host } := ⟨rfl, rfl, rfl⟩
      obtain ⟨holds', related⟩ := conduct.same core holds
      exact (induction uses holds').after related
  | perform command next induction =>
      have first := performs command state uses.1 holds
      unfold execute
      cases ran : command.perform invoke depth state with
      | stopped later =>
          rw [ran] at first
          exact first
      | ended outcome later =>
          rw [ran] at first
          have after := first.ended tolerant
          exact (induction outcome (uses.2 outcome) after.1).after after.2

/-- Reactions keep it up at every depth at which they are nested. -/
theorem keeps_invoke (tolerant : conduct.tolerant)
    (performs : ∀ (invoke : Invoke κ σ) (depth : Nat), conduct.Keeps invoke →
      ∀ {β : Type} (command : Command κ β) (state : State κ σ), allowed command →
      conduct.holds state →
      conduct.Meets state (fun _ _ => True) (command.perform invoke depth state))
    {code : κ → Occasion κ → Program κ σ Value}
    (uses : ∀ body value, (code body (.updated value)).Uses allowed) (depth : Nat) :
    conduct.Keeps (Program.invoke code depth) := by
  induction depth with
  | zero =>
      intro body value state holds
      exact fun _ => holds
  | succ depth induction =>
      intro body value state holds
      exact meets_execute tolerant (performs _ depth induction) (uses body value) holds

end Program

end ReactiveView
