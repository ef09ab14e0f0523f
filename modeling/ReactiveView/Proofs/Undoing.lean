import ReactiveView.Proofs.Making
import ReactiveView.Proofs.Suspending

/-!
# Bindings that are undone

A binding that is dropped leaves all that it is subscribed to, and so does one that does not
come into being because its evaluation or its reaction fails. Whoever else is in a registry
stays there, in the same order.
-/

namespace ReactiveView

set_option autoImplicit false

variable {κ σ : Type}

theorem filter_ne_of_not_mem {ids : List SubscriberId} {id : SubscriberId} (absent : id ∉ ids) :
    ids.filter (· ≠ id) = ids := by
  apply List.filter_eq_self.mpr
  intro other member
  simpa using fun same : other = id => absent (same ▸ member)

namespace State

/-- Each registry lists the subscribers that it listed, in the same order. -/
def SameRegistries (state later : State κ σ) : Prop :=
  ∀ registry, later.store.subscribers registry = state.store.subscribers registry

variable {state later final : State κ σ} {id : SubscriberId} {binding : Binding κ}

theorem store_leave_of_held {role : Role κ} {underWay : Nat}
    (found : state.subscriber? id = some ⟨role, true, underWay⟩) :
    (state.leave id).store = state.store := by
  have alive : (state.changeSubscriber id (fun subscriber =>
      { subscriber with underWay := subscriber.underWay - 1 })).isAlive id = true := by
    rw [isAlive, subscriber?_changeSubscriber, if_pos rfl, found]
    rfl
  rw [leave, settle_of_alive alive]
  rfl

section Drop

variable {held : Bool}

theorem subscribers_drop (found : state.subscriber? id = some ⟨.binding binding, held, 0⟩)
    (registry : RegistryId) :
    (state.drop id).store.subscribers registry =
      if registry ∈ binding.subscriptions then
        (state.store.subscribers registry).filter (· ≠ id)
      else state.store.subscribers registry := by
  have released : (state.changeSubscriber id (fun subscriber =>
      { subscriber with held := false })).subscriber? id = some ⟨.binding binding, false, 0⟩ := by
    rw [subscriber?_changeSubscriber, if_pos rfl, found]
    rfl
  have gone : (state.changeSubscriber id (fun subscriber =>
      { subscriber with held := false })).isAlive id = false := by
    rw [isAlive, released]
    rfl
  rw [drop, settle_of_gone (binding?_eq_some_iff.mpr ⟨_, _, released⟩) gone]
  exact Store.subscribers_unregisterAll _ _ _ _

/-- One that is in the registries of its subscriptions leaves them all. -/
theorem subscribers_drop_of_linked (linked : state.Linked id)
    (found : state.subscriber? id = some ⟨.binding binding, held, 0⟩) (registry : RegistryId) :
    (state.drop id).store.subscribers registry =
      (state.store.subscribers registry).filter (· ≠ id) := by
  rw [subscribers_drop found]
  split
  · rfl
  · next apart =>
      have absent : id ∉ state.store.subscribers registry := by
        rw [linked.joined, binding?_eq_some_iff.mpr ⟨_, _, found⟩]
        simpa using apart
      exact (filter_ne_of_not_mem absent).symm

theorem subscribers_leave_drop (found : state.subscriber? id = some ⟨.binding binding, held, 1⟩)
    (registry : RegistryId) :
    ((state.leave id).drop id).store.subscribers registry =
      if registry ∈ binding.subscriptions then
        (state.store.subscribers registry).filter (· ≠ id)
      else state.store.subscribers registry := by
  let ended : State κ σ := state.changeSubscriber id (fun subscriber =>
    { subscriber with underWay := subscriber.underWay - 1 })
  have after : ended.subscriber? id = some ⟨.binding binding, held, 0⟩ := by
    rw [subscriber?_changeSubscriber, if_pos rfl, found]
    rfl
  have present : ended.binding? id = some binding := binding?_eq_some_iff.mpr ⟨_, _, after⟩
  have alive : ended.isAlive id = held := by
    rw [isAlive, after]
    exact Bool.or_false held
  cases held with
  | true =>
      rw [leave, settle_of_alive alive]
      exact subscribers_drop after registry
  | false =>
      -- nobody holds it any more, so it has left when its run is over
      have left : (state.leave id).binding? id = some { binding with subscriptions := [] } := by
        rw [leave, settle_of_gone present alive, binding?_changeBinding, if_pos rfl]
        exact congrArg (Option.map _) present
      rw [store_drop left rfl, leave, settle_of_gone present alive]
      exact Store.subscribers_unregisterAll _ _ _ _

end Drop

/-- What has been tried has come to nothing. -/
structure Reverts (state later : State κ σ) : Prop where
  registries : state.SameRegistries later
  earlier : ∀ id, id.index < state.subscribers.size → later.subscriber? id = state.subscriber? id

/-- New bindings are in registries beside those that were there. -/
structure Enlists (state later : State κ σ) (ids : List SubscriberId) : Prop where
  made : ∃ bindings, state.Made later ids bindings
  observer : later.observer = state.observer
  size : later.store.registries.size = state.store.registries.size
  exact : ∀ id ∈ ids, later.Exact id
  registries : ∀ registry, (later.store.subscribers registry).filter (· ∉ ids) =
    state.store.subscribers registry

namespace Enlists

variable {ids ids' : List SubscriberId}

theorem sameCore (same : state.SameCore later) : state.Enlists later [] where
  made := ⟨[], .sameCore same⟩
  observer := same.observer
  size := by rw [same.store]
  exact := nofun
  registries := by
    intro registry
    rw [same.store]
    simp

theorem data (enlists : state.Enlists later ids) : state.store.SameData later.store := by
  obtain ⟨bindings, made⟩ := enlists.made
  exact made.data

theorem new (enlists : state.Enlists later ids) (member : id ∈ ids) :
    state.subscribers.size ≤ id.index := by
  obtain ⟨bindings, made⟩ := enlists.made
  exact (made.mem_iff.mp member).1

theorem mem_subscribers (enlists : state.Enlists later ids) (old : id ∉ ids)
    (registry : RegistryId) :
    id ∈ later.store.subscribers registry ↔ id ∈ state.store.subscribers registry := by
  rw [← enlists.registries registry]
  simp [old]

theorem enrolled (enlists : state.Enlists later ids) (enrolled : state.Enrolled) :
    later.Enrolled where
  ranged := enlists.data.ranged enlists.size enrolled.ranged
  present := by
    intro registry id member
    obtain ⟨bindings, made⟩ := enlists.made
    by_cases new : id ∈ ids
    · exact made.lt_of_mem new
    · rw [made.size]
      exact Nat.lt_add_right _
        (enrolled.present registry id ((enlists.mem_subscribers new registry).mp member))

theorem trans (first : state.Enlists later ids) (second : later.Enlists final ids') :
    state.Enlists final (ids ++ ids') where
  made := by
    obtain ⟨bindings, made⟩ := first.made
    obtain ⟨bindings', made'⟩ := second.made
    exact ⟨bindings ++ bindings', made.trans made'⟩
  observer := second.observer.trans first.observer
  size := second.size.trans first.size
  exact := by
    intro id member
    rcases List.mem_append.mp member with former | latter
    · obtain ⟨bindings, made⟩ := first.made
      obtain ⟨bindings', made'⟩ := second.made
      have before := made.lt_of_mem former
      have old : id ∉ ids' := fun latter => Nat.not_lt_of_le (second.new latter) before
      exact (first.exact id former).congr (made'.earlier id before) (second.mem_subscribers old)
    · exact second.exact id latter
  registries := by
    intro registry
    rw [← first.registries registry, ← second.registries registry, List.filter_filter]
    apply List.filter_congr
    intro id _
    simp

end Enlists

theorem leaves_dropAll {ids : List SubscriberId} (distinct : ids.Nodup)
    (exact : ∀ id ∈ ids, state.Exact id)
    (held : ∀ id ∈ ids, ∃ binding, state.subscriber? id = some ⟨.binding binding, true, 0⟩) :
    (∀ registry, (ids.foldl (fun state id => state.drop id) state).store.subscribers registry =
      (state.store.subscribers registry).filter (· ∉ ids)) ∧
    ∀ other, other ∉ ids →
      (ids.foldl (fun state id => state.drop id) state).subscriber? other =
        state.subscriber? other := by
  induction ids generalizing state with
  | nil => exact ⟨fun registry => by simp, fun _ _ => rfl⟩
  | cons id rest induction =>
      obtain ⟨apart, distinct'⟩ := List.nodup_cons.mp distinct
      have same : state.SameButFor id (state.drop id) := sameButFor_release state id _
      have differs {other : SubscriberId} (member : other ∈ rest) : other ≠ id :=
        fun here => apart (here ▸ member)
      obtain ⟨registries, others⟩ := induction distinct'
        (fun other member => same.exact (differs member) (exact other (List.mem_cons_of_mem _ member)))
        (fun other member => by
          rw [same.others other (differs member)]
          exact held other (List.mem_cons_of_mem _ member))
      obtain ⟨binding, found⟩ := held id List.mem_cons_self
      have linked := (exact id List.mem_cons_self).toLinked
      constructor
      · intro registry
        rw [List.foldl_cons, registries, subscribers_drop_of_linked linked found, List.filter_filter]
        apply List.filter_congr
        intro other _
        simp [Bool.and_comm]
      · intro other absent
        rw [List.foldl_cons, others other (fun member => absent (List.mem_cons_of_mem _ member)),
          same.others other (fun here => absent (here ▸ List.mem_cons_self))]

theorem Enlists.reverts {ids : List SubscriberId} (enlists : state.Enlists later ids)
    (reverts : later.Reverts final) :
    state.Reverts (ids.foldl (fun state id => state.drop id) final) := by
  obtain ⟨bindings, made⟩ := enlists.made
  have kept {id : SubscriberId} (member : id ∈ ids) :
      final.subscriber? id = later.subscriber? id :=
    reverts.earlier id (made.lt_of_mem member)
  obtain ⟨registries, others⟩ := leaves_dropAll made.nodup
    (fun id member => (enlists.exact id member).congr (kept member)
      (fun registry => by rw [reverts.registries registry]))
    (fun id member => by
      obtain ⟨binding, -, found⟩ := made.subscriber_of_mem member
      exact ⟨binding, (kept member).trans found⟩)
  constructor
  · intro registry
    rw [registries, reverts.registries, enlists.registries]
  · intro id before
    rw [others id (fun member => Nat.not_lt_of_le (enlists.new member) before),
      reverts.earlier id (made.size ▸ Nat.lt_add_right _ before), made.earlier id before]

end State

namespace Blueprint

/-- A binding of it before its first evaluation. -/
def fresh (blueprint : Blueprint κ) : Binding κ :=
  ⟨blueprint.source, blueprint.formula, blueprint.context, blueprint.reaction, [], none, none⟩

def make (invoke : Invoke κ σ) (blueprint : Blueprint κ) : Engine κ σ SubscriberId :=
  Engine.bindFormula invoke blueprint.source blueprint.formula blueprint.context
    blueprint.reaction

def callsNone (blueprint : Blueprint κ) : Bool :=
  blueprint.formula.callsNone blueprint.context.methods

def outcome (blueprint : Blueprint κ) (state : State κ σ) : Except Error Value :=
  match state.observer with
  | some _ => .error .nestedEvaluation
  | none => (blueprint.formula.reading blueprint.context state.store).outcome

theorem plain_fresh {blueprint : Blueprint κ} (plain : blueprint.callsNone = true) :
    blueprint.fresh.Plain := ⟨plain⟩

end Blueprint

namespace State

variable {state later evaluated : State κ σ} {id : SubscriberId} {binding : Binding κ}
  {blueprint : Blueprint κ}

abbrev next (state : State κ σ) : SubscriberId := ⟨state.subscribers.size⟩

def launched (state : State κ σ) (blueprint : Blueprint κ) : State κ σ :=
  (state.addSubscriber ⟨.binding blueprint.fresh, true, 0⟩).2.enter state.next

def tried (state : State κ σ) (blueprint : Blueprint κ) : State κ σ :=
  (state.launched blueprint).evaluated state.next blueprint.fresh

theorem sameButFor_launched (state : State κ σ) (blueprint : Blueprint κ) :
    state.SameButFor state.next (state.launched blueprint) :=
  (sameButFor_addSubscriber state _).trans (sameButFor_changeSubscriber _ _ _)

theorem subscriber?_launched (state : State κ σ) (blueprint : Blueprint κ) :
    (state.launched blueprint).subscriber? state.next =
      some ⟨.binding blueprint.fresh, true, 1⟩ := by
  rw [launched, subscriber?_enter, if_pos rfl, subscriber?_addSubscriber]
  rfl

theorem binding?_launched (state : State κ σ) (blueprint : Blueprint κ) :
    (state.launched blueprint).binding? state.next = some blueprint.fresh :=
  binding?_eq_some_iff.mpr ⟨true, 1, subscriber?_launched state blueprint⟩

/-- An evaluation leaves the others in their order. -/
theorem filter_ne_subscribers_evaluated (found : state.binding? id = some binding)
    (registry : RegistryId) :
    ((state.evaluated id binding).store.subscribers registry).filter (· ≠ id) =
      (state.store.subscribers registry).filter (· ≠ id) := by
  have joined : ((state.joined id binding).store.subscribers registry).filter (· ≠ id) =
      (state.store.subscribers registry).filter (· ≠ id) := by
    rcases subscribers_joined_cases state id binding registry with same | ⟨-, added⟩
    · rw [same]
    · simp [added]
  rw [subscribers_evaluated found]
  split
  · simpa only [List.filter_filter, Bool.and_self] using joined
  · exact joined

/-- A new binding in its first run, with the registries that it has joined. -/
structure Begun (state evaluated : State κ σ) (binding : Binding κ) : Prop where
  same : state.SameButFor state.next evaluated
  idle : evaluated.observer = none
  found : evaluated.subscriber? state.next = some ⟨.binding binding, true, 1⟩
  exact : evaluated.Exact state.next
  others : ∀ registry,
    (evaluated.store.subscribers registry).filter (· ≠ state.next) =
      state.store.subscribers registry

theorem Enrolled.begun (enrolled : state.Enrolled) (plain : blueprint.callsNone = true) :
    state.Begun (state.tried blueprint) (blueprint.fresh.evaluated state.store) := by
  have found := binding?_launched state blueprint
  have same := sameButFor_launched state blueprint
  have linked : (state.launched blueprint).Linked state.next :=
    (enrolled.linked_addSubscriber (Blueprint.plain_fresh plain) rfl).changeSubscriber
      (fun _ => rfl)
  have alive : (state.launched blueprint).isAlive state.next = true := by
    rw [isAlive, subscriber?_launched]
    rfl
  refine ⟨same.trans (sameButFor_evaluated found), observer_evaluated found,
    subscriber?_evaluated_self (subscriber?_launched state blueprint),
    exact_evaluated linked (same.ranged enrolled.ranged) found alive, ?_⟩
  intro registry
  rw [tried, filter_ne_subscribers_evaluated found]
  exact filter_ne_of_not_mem (enrolled.absent registry)

namespace Begun

theorem sameCore (begun : state.Begun evaluated binding) (same : evaluated.SameCore later) :
    state.Begun later binding where
  same := by
    have quiet : evaluated.SameButFor state.next later := by
      refine ⟨same.store ▸ .refl _, by rw [same.store], fun _ _ => same.subscriber? _, ?_⟩
      intro _ _ registry
      rw [same.store]
    exact begun.same.trans quiet
  idle := same.observer.trans begun.idle
  found := (same.subscriber? _).trans begun.found
  exact := begun.exact.sameCore same
  others := by
    intro registry
    rw [same.store]
    exact begun.others registry

theorem hand (begun : state.Begun evaluated binding) (value : Value) :
    state.Begun (evaluated.hand state.next value) { binding with handed := some value } where
  same := begun.same.trans (sameButFor_changeBinding _ _ _)
  idle := begun.idle
  found := subscriber?_changeBinding_self begun.found _
  exact := exact_hand begun.exact value
  others := begun.others

theorem reverts (begun : state.Begun evaluated binding) :
    state.Reverts ((evaluated.leave state.next).drop state.next) where
  registries := by
    intro registry
    rw [subscribers_leave_drop begun.found]
    split
    · exact begun.others registry
    · next apart =>
        have absent : state.next ∉ evaluated.store.subscribers registry := by
          rw [begun.exact.joined, binding?_eq_some_iff.mpr ⟨_, _, begun.found⟩]
          simpa using apart
        rw [← begun.others registry]
        exact (filter_ne_of_not_mem absent).symm
  earlier := by
    intro id before
    have differs : id ≠ state.next := by
      rintro rfl
      exact Nat.lt_irrefl _ before
    exact (begun.same.trans ((sameButFor_release _ _ _).trans
      (sameButFor_release _ _ _))).others id differs

theorem enlists (begun : state.Begun evaluated binding) (idle : state.observer = none)
    (made : ∃ bindings, state.Made (evaluated.leave state.next) [state.next] bindings) :
    state.Enlists (evaluated.leave state.next) [state.next] where
  made := made
  observer := by rw [observer_leave, begun.idle, idle]
  size := (begun.same.trans (sameButFor_release _ _ _)).size
  exact := by
    intro id member
    rw [List.mem_singleton.mp member]
    exact exact_release releases_leave begun.exact
  registries := by
    intro registry
    rw [store_leave_of_held begun.found, ← begun.others registry]
    apply List.filter_congr
    intro id _
    simp

end Begun

end State

namespace Engine

variable {invoke : Invoke κ σ} {state : State κ σ} {blueprint : Blueprint κ}

/-- A binding is made by a run of it. If that fails, it is dropped. -/
theorem make_eq (invoke : Invoke κ σ) (blueprint : Blueprint κ) (state : State κ σ) :
    blueprint.make invoke state =
      match refresh invoke state.next blueprint.fresh (state.launched blueprint) with
      | .ended (.ok _) after => .ended (.ok state.next) (after.leave state.next)
      | .ended (.error error) after =>
          .ended (.error error) ((after.leave state.next).drop state.next)
      | .stopped after => .stopped after := by
  have start : (transform (State.addSubscriber ⟨.binding blueprint.fresh, true, 0⟩) :
      Engine κ σ SubscriberId) state =
        .ended (.ok state.next) (state.addSubscriber ⟨.binding blueprint.fresh, true, 0⟩).2 := rfl
  have run := whileRunning_eq state.next (refresh invoke state.next blueprint.fresh)
    (state.addSubscriber ⟨.binding blueprint.fresh, true, 0⟩).2
  change (transform (State.addSubscriber ⟨.binding blueprint.fresh, true, 0⟩) >>= _) state = _
  rw [bind_of_ok start]
  change (attempt (whileRunning state.next (refresh invoke state.next blueprint.fresh)) >>= _) _ = _
  simp only [Bind.bind, bind, attempt, run, State.launched]
  cases refresh invoke state.next blueprint.fresh
      ((state.addSubscriber ⟨.binding blueprint.fresh, true, 0⟩).2.enter state.next) with
  | stopped after => rfl
  | ended outcome after => cases outcome <;> rfl

theorem evaluateBinding_launched (invoke : Invoke κ σ) (plain : blueprint.callsNone = true)
    (idle : state.observer = none) :
    evaluateBinding invoke state.next blueprint.fresh (state.launched blueprint) =
      .ended (blueprint.formula.reading blueprint.context state.store).outcome
        (state.tried blueprint) :=
  evaluateBinding_eq invoke state.next (Blueprint.plain_fresh plain).callsNone idle

theorem refresh_launched (invoke : Invoke κ σ) (plain : blueprint.callsNone = true)
    (idle : state.observer = none) :
    refresh invoke state.next blueprint.fresh (state.launched blueprint) =
      match (blueprint.formula.reading blueprint.context state.store).outcome with
      | .error error => .ended (.error error) (state.tried blueprint)
      | .ok value =>
          react invoke blueprint.reaction value
            ((state.tried blueprint).hand state.next value) := by
  have evaluation := evaluateBinding_launched invoke plain idle
  rw [refresh]
  cases given : (blueprint.formula.reading blueprint.context state.store).outcome with
  | error error =>
      rw [given] at evaluation
      exact bind_of_error evaluation _
  | ok value =>
      rw [given] at evaluation
      rw [bind_of_ok evaluation]
      rfl

theorem make_of_error (invoke : Invoke κ σ) (enrolled : state.Enrolled)
    (plain : blueprint.callsNone = true) {error : Error}
    (failed : blueprint.outcome state = .error error) :
    ∃ later, blueprint.make invoke state = .ended (.error error) later ∧ state.Reverts later := by
  unfold Blueprint.outcome at failed
  split at failed
  · next observer occupied =>
      cases failed
      obtain ⟨later, refused, store, -, others⟩ : ∃ later,
          blueprint.make invoke state = .ended (.error .nestedEvaluation) later ∧
          later.store = state.store ∧ later.observer = state.observer ∧
          ∀ other, other ≠ state.next → later.subscriber? other = state.subscriber? other :=
        bindFormula_of_observed occupied _ _ _ _
      refine ⟨later, refused, ?_, ?_⟩
      · intro registry
        rw [store]
      · intro id before
        apply others
        rintro rfl
        exact Nat.lt_irrefl _ before
  · next idle =>
      refine ⟨_, ?_, (enrolled.begun plain).reverts⟩
      rw [make_eq, refresh_launched invoke plain idle, failed]

theorem make_of_ok (invoke : Invoke κ σ) (enrolled : state.Enrolled)
    (plain : blueprint.callsNone = true) {spot : Spot}
    (sets : blueprint.reaction.spot? = some spot) {value : Value}
    (given : blueprint.outcome state = .ok value) :
    ∃ later, blueprint.make invoke state = .ended (.ok state.next) later ∧
      state.Enlists later [state.next] := by
  unfold Blueprint.outcome at given
  split at given
  · cases given
  · next idle =>
      obtain ⟨setting, -, reacts⟩ :=
        react_of_spot invoke sets value ((state.tried blueprint).hand state.next value)
      let reacted : State κ σ := { (state.tried blueprint).hand state.next value with
        document := ((state.tried blueprint).hand state.next value).document.set setting }
      have quiet : State.SameCore ((state.tried blueprint).hand state.next value) reacted :=
        ⟨rfl, rfl, rfl⟩
      have made : blueprint.make invoke state =
          .ended (.ok state.next) (reacted.leave state.next) := by
        rw [make_eq, refresh_launched invoke plain idle, given]
        simp only [reacts]
        rfl
      obtain ⟨binding, -, -, bindings, -⟩ := ok_of_bindFormula plain sets made
      exact ⟨_, made, (((enrolled.begun plain).hand value).sameCore quiet).enlists idle
        ⟨_, bindings⟩⟩

/-- How a binding has failed to come into being. If that was in its reaction, it leaves the
registries of its subscriptions; what the reaction did to registries stays, and a registry
that it left alone is as before. -/
inductive Undone (invoke : Invoke κ σ) (blueprint : Blueprint κ) (state later : State κ σ) :
    Error → Prop where
  | refused {observer : Observer} (occupied : state.observer = some observer)
      (restored : state.SameRegistries later) :
      Undone invoke blueprint state later .nestedEvaluation
  | unevaluated {error : Error}
      (failed : evaluateFormula invoke blueprint.context blueprint.formula state =
        .ended (.error error) state)
      (restored : state.SameRegistries later) : Undone invoke blueprint state later error
  | unreacted {value : Value} {error : Error} {evaluated after : State κ σ}
      {first last : Binding κ}
      (given : evaluateFormula invoke blueprint.context blueprint.formula state =
        .ended (.ok value) state)
      (evaluates : evaluateBinding invoke state.next blueprint.fresh (state.launched blueprint) =
        .ended (.ok value) evaluated)
      (reacts : react invoke blueprint.reaction value (evaluated.hand state.next value) =
        .ended (.error error) after)
      (started : evaluated.binding? state.next = some first)
      (joined : ∀ registry, (evaluated.store.subscribers registry).filter (· ≠ state.next) =
        state.store.subscribers registry)
      (found : after.binding? state.next = some last)
      (left : ∀ registry, later.store.subscribers registry =
        if registry ∈ last.subscriptions then
          (after.store.subscribers registry).filter (· ≠ state.next)
        else after.store.subscribers registry)
      (restored : ∀ registry,
        after.store.subscribers registry = evaluated.store.subscribers registry →
        (registry ∈ last.subscriptions ↔ registry ∈ first.subscriptions) →
        later.store.subscribers registry = state.store.subscribers registry) :
      Undone invoke blueprint state later error

theorem subscriber?_of_react {code : κ → Occasion κ → Program κ σ Value} {depth : Nat}
    {evaluated after : State κ σ} {binding : Binding κ} (begun : state.Begun evaluated binding)
    {reaction : Reaction κ} {value : Value} {outcome : Except Error Unit}
    (reacts : react (Program.invoke code depth) reaction value evaluated = .ended outcome after) :
    ∃ last held, after.subscriber? state.next = some ⟨.binding last, held, 1⟩ := by
  have started : evaluated.binding? state.next = some binding :=
    State.binding?_eq_some_iff.mpr ⟨_, _, begun.found⟩
  obtain ⟨reads, run⟩ := corresponds_react (joins_running code depth) reaction value begun.idle
    (fun _ _ => .single (.outside _ _ _)) outcome after reacts
  have carried : State.Carries state.next evaluated after := run.carries
  have running : after.underWay state.next = 1 := by
    rw [carried.underWay, State.underWay, begun.found]
    rfl
  obtain ⟨last, found⟩ := Option.isSome_iff_exists.mp (carried.present (by rw [started]; rfl))
  obtain ⟨held, underWay, present⟩ := State.binding?_eq_some_iff.mp found
  rw [State.underWay, present] at running
  cases running
  exact ⟨last, held, present⟩

theorem undone_of_make {code : κ → Occasion κ → Program κ σ Value} {depth : Nat}
    (enrolled : state.Enrolled) (plain : blueprint.callsNone = true) {error : Error}
    {later : State κ σ}
    (failed : blueprint.make (Program.invoke code depth) state = .ended (.error error) later) :
    Undone (Program.invoke code depth) blueprint state later error := by
  cases observed : state.observer with
  | some observer =>
      have refused : blueprint.outcome state = .error .nestedEvaluation := by
        rw [Blueprint.outcome, observed]
      obtain ⟨later', failed', reverts⟩ := make_of_error _ enrolled plain refused
      cases failed.symm.trans failed'
      exact .refused observed reverts.registries
  | none =>
      have present := evaluateFormula_idle (Program.invoke code depth) plain observed
      cases given : (blueprint.formula.reading blueprint.context state.store).outcome with
      | error error' =>
          have unevaluated : blueprint.outcome state = .error error' := by
            rw [Blueprint.outcome, observed, given]
          obtain ⟨later', failed', reverts⟩ := make_of_error _ enrolled plain unevaluated
          cases failed.symm.trans failed'
          exact .unevaluated (given ▸ present) reverts.registries
      | ok value =>
          have evaluates := evaluateBinding_launched (Program.invoke code depth) plain observed
          rw [given] at evaluates
          rw [make_eq, refresh_launched _ plain observed, given] at failed
          simp only at failed
          split at failed
          · cases failed
          · next error' after reacts =>
              cases failed
              have begun := enrolled.begun plain
              obtain ⟨last, held, found⟩ := subscriber?_of_react (begun.hand value) reacts
              have left := State.subscribers_leave_drop found
              refine .unreacted (given ▸ present) evaluates reacts
                (State.binding?_eq_some_iff.mpr ⟨_, _, begun.found⟩) begun.others
                (State.binding?_eq_some_iff.mpr ⟨_, _, found⟩) left ?_
              intro registry same kept
              have before := State.subscribers_leave_drop begun.found registry
              rw [begun.reverts.registries] at before
              rw [left, same, before]
              simp only [kept]
          · cases failed

end Engine

end ReactiveView
