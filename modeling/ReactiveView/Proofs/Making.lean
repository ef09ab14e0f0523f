import ReactiveView.Proofs.Freshness
import ReactiveView.Proofs.Tending

/-!
# Runs of bindings that set something

A run of a binding of a view ends well only if its evaluation does. It changes this one
binding and the document at its spot. A binding that is made is such a run of a new
subscriber.
-/

namespace ReactiveView

set_option autoImplicit false

variable {κ σ : Type}

namespace State

variable {state later final : State κ σ} {id : SubscriberId} {binding : Binding κ}

theorem document_track (state : State κ σ) (registry : RegistryId) :
    (state.track registry).document = state.document := by
  unfold track
  split
  · rfl
  · split <;> rfl

theorem document_trackAll (state : State κ σ) (registries : List RegistryId) :
    (state.trackAll registries).document = state.document := by
  induction registries generalizing state with
  | nil => rfl
  | cons registry rest induction => exact (induction _).trans (document_track state registry)

theorem document_evaluated (found : state.binding? id = some binding) :
    (state.evaluated id binding).document = state.document := by
  rw [evaluated_eq found]
  exact document_trackAll (state.observing id) _

theorem subscriber?_changeBinding_self {held : Bool} {underWay : Nat}
    (found : state.subscriber? id = some ⟨.binding binding, held, underWay⟩)
    (change : Binding κ → Binding κ) :
    (state.changeBinding id change).subscriber? id =
      some ⟨.binding (change binding), held, underWay⟩ := by
  rw [changeBinding, subscriber?_changeSubscriber, if_pos rfl, found]
  rfl

theorem subscriber?_evaluated_self {held : Bool} {underWay : Nat}
    (found : state.subscriber? id = some ⟨.binding binding, held, underWay⟩) :
    (state.evaluated id binding).subscriber? id =
      some ⟨.binding (binding.evaluated state.store), held, underWay⟩ := by
  rw [evaluated_eq (binding?_eq_some_iff.mpr ⟨held, underWay, found⟩)]
  have joined : ((state.joined id binding).changeStore
      (·.unregisterAll (binding.stale state.store) id)).subscriber? id =
        some ⟨.binding binding, held, underWay⟩ := by
    have same := (sameBindings_joined state id binding).subscribers
    simp only [changeStore, subscriber?, same]
    exact found
  exact subscriber?_changeBinding_self joined _

theorem size_changeSubscriber (state : State κ σ) (id : SubscriberId)
    (change : Subscriber κ → Subscriber κ) :
    (state.changeSubscriber id change).subscribers.size = state.subscribers.size :=
  Array.size_modify

theorem size_subscribers_evaluated (found : state.binding? id = some binding) :
    (state.evaluated id binding).subscribers.size = state.subscribers.size := by
  rw [evaluated_eq found, changeBinding, size_changeSubscriber]
  exact congrArg Array.size (sameBindings_joined state id binding).subscribers

def blueprint? (state : State κ σ) (id : SubscriberId) : Option (Blueprint κ) :=
  (state.binding? id).map Binding.blueprint

/-- One binding has been run and has handed its value on. -/
structure Refreshed (state later : State κ σ) (id : SubscriberId) (binding : Binding κ)
    (held : Bool) (underWay : Nat) (value : Value) (setting : Document.Setting) : Prop where
  idle : state.observer = none
  outcome : (binding.account state.store).outcome = .ok value
  sets : binding.reaction.setting? state.store value = some setting
  same : state.SameButFor id later
  size : later.subscribers.size = state.subscribers.size
  subscriber : later.subscriber? id =
    some ⟨.binding { binding.evaluated state.store with handed := some value }, held, underWay⟩
  document : later.document = state.document.set setting

end State

namespace Engine

variable {invoke : Invoke κ σ} {state later : State κ σ} {id : SubscriberId} {binding : Binding κ}

theorem ok_of_bind {α β : Type} {first : Engine κ σ α} {second : α → Engine κ σ β} {result : β}
    (ended : (first >>= second) state = .ended (.ok result) later) :
    ∃ value middle, first state = .ended (.ok value) middle ∧
      second value middle = .ended (.ok result) later := by
  simp only [Bind.bind, bind] at ended
  cases ran : first state with
  | stopped middle =>
      rw [ran] at ended
      cases ended
  | ended outcome middle =>
      rw [ran] at ended
      cases outcome with
      | error error => cases ended
      | ok value => exact ⟨value, middle, rfl, ended⟩

theorem ok_of_attempt {α : Type} {body : Engine κ σ α} {result : Except Error α}
    (ended : attempt body state = .ended (.ok result) later) :
    body state = .ended result later := by
  unfold attempt at ended
  split at ended
  · next outcome middle ran =>
      cases ended
      exact ran
  · cases ended

theorem react_of_spot (invoke : Invoke κ σ) {reaction : Reaction κ} {spot : Spot} (sets : reaction.spot? = some spot)
    (value : Value) (state : State κ σ) :
    ∃ setting, reaction.setting? state.store value = some setting ∧
      react invoke reaction value state =
        .ended (.ok ()) { state with document := state.document.set setting } := by
  cases reaction with
  | code body => cases sets
  | textContent node => exact ⟨_, rfl, rfl⟩
  | renderedText node => exact ⟨_, rfl, rfl⟩
  | property node name => exact ⟨_, rfl, rfl⟩

/-- Nothing is evaluated while another evaluation is in progress. -/
theorem idle_of_evaluateBinding {value : Value}
    (ended : evaluateBinding invoke id binding state = .ended (.ok value) later) :
    state.observer = none := by
  obtain ⟨data, middle, looked, ended⟩ := ok_of_bind ended
  cases looked
  obtain ⟨_, middle, observed, _⟩ := ok_of_bind ended
  unfold observe at observed
  split at observed
  · cases observed
  · next idle => exact idle

theorem ok_of_refresh {spot : Spot}
    (plain : binding.formula.callsNone binding.context.methods = true)
    (sets : binding.reaction.spot? = some spot) (found : state.binding? id = some binding)
    (ended : refresh invoke id binding state = .ended (.ok ()) later) :
    state.observer = none ∧ ∃ value setting, (binding.account state.store).outcome = .ok value ∧
      binding.reaction.setting? state.store value = some setting ∧
      later = { (state.evaluated id binding).hand id value with
        document := state.document.set setting } := by
  obtain ⟨value, evaluated, evaluation, ended⟩ := ok_of_bind ended
  have idle := idle_of_evaluateBinding evaluation
  rw [evaluateBinding_eq invoke id plain idle] at evaluation
  obtain ⟨_, handed, hand, ended⟩ := ok_of_bind ended
  injection evaluation with outcome same
  injection hand with _ hand
  obtain ⟨setting, set, reacts⟩ := react_of_spot invoke sets value handed
  rw [reacts] at ended
  injection ended with _ ended
  subst same hand
  have text : ((state.evaluated id binding).hand id value).store.text value =
      state.store.text value := (State.sameData_evaluated found).text value
  rw [Reaction.setting?_congr text] at set
  refine ⟨idle, value, setting, outcome, set, ?_⟩
  rw [← ended]
  have document : ((state.evaluated id binding).hand id value).document = state.document :=
    State.document_evaluated found
  rw [document]

theorem ok_of_run {spot : Spot} {held : Bool} {underWay : Nat}
    (plain : binding.formula.callsNone binding.context.methods = true)
    (sets : binding.reaction.spot? = some spot)
    (found : state.subscriber? id = some ⟨.binding binding, held, underWay⟩)
    (alive : state.isAlive id = true)
    (ended : whileRunning id (refresh invoke id binding) state = .ended (.ok ()) later) :
    ∃ value setting, state.Refreshed later id binding held underWay value setting := by
  have entered : (state.enter id).subscriber? id = some ⟨.binding binding, held, underWay + 1⟩ := by
    rw [State.subscriber?_enter, if_pos rfl, found]
    rfl
  have present := State.binding?_eq_some_iff.mpr ⟨held, _, entered⟩
  rw [whileRunning_eq] at ended
  split at ended
  · next outcome middle ran =>
      injection ended with ok left
      rw [ok] at ran
      obtain ⟨idle, value, setting, outcome, set, refreshed⟩ := ok_of_refresh plain sets present ran
      have subscriber : middle.subscriber? id = some
          ⟨.binding { binding.evaluated state.store with handed := some value }, held,
            underWay + 1⟩ := by
        rw [refreshed]
        exact State.subscriber?_changeBinding_self (State.subscriber?_evaluated_self entered) _
      have same : state.SameButFor id middle := by
        have whole := (State.sameButFor_changeSubscriber state id _).trans
          ((State.sameButFor_evaluated present).trans
            (State.sameButFor_changeBinding _ id (fun binding => { binding with handed := some value })))
        rw [refreshed]
        exact ⟨whole.data, whole.size, whole.others, whole.members⟩
      have size : middle.subscribers.size = state.subscribers.size := by
        rw [refreshed]
        change (((state.enter id).evaluated id binding).hand id value).subscribers.size = _
        rw [State.hand, State.changeBinding, State.size_changeSubscriber,
          State.size_subscribers_evaluated present, State.enter, State.size_changeSubscriber]
      -- the subscriber is as alive as it was, so it keeps its subscriptions
      have after : (middle.changeSubscriber id (fun subscriber =>
          { subscriber with underWay := subscriber.underWay - 1 })).subscriber? id = some
            ⟨.binding { binding.evaluated state.store with handed := some value }, held,
              underWay⟩ := by
        rw [State.subscriber?_changeSubscriber, if_pos rfl, subscriber]
        rfl
      have alive' : (middle.changeSubscriber id (fun subscriber =>
          { subscriber with underWay := subscriber.underWay - 1 })).isAlive id = true := by
        rw [State.isAlive, found] at alive
        rw [State.isAlive, after]
        exact alive
      have stays : middle.leave id = middle.changeSubscriber id (fun subscriber =>
          { subscriber with underWay := subscriber.underWay - 1 }) := State.settle_of_alive alive'
      refine ⟨value, setting, idle, outcome, set, ?_, ?_, ?_, ?_⟩
      · rw [← left]
        exact same.trans (State.sameButFor_release middle id _)
      · rw [← left, stays, State.size_changeSubscriber, size]
      · rw [← left, stays, after]
      · rw [← left, stays, refreshed]
        rfl
  · cases ended

end Engine

namespace State

/-- Bindings have been made one after the other, and earlier subscribers left alone. -/
structure Made (state later : State κ σ) (ids : List SubscriberId) (made : List (Binding κ)) :
    Prop where
  data : state.store.SameData later.store
  size : later.subscribers.size = state.subscribers.size + ids.length
  new : ids = (List.range' state.subscribers.size ids.length).map SubscriberId.mk
  earlier : ∀ id, id.index < state.subscribers.size → later.subscriber? id = state.subscriber? id
  bindings : ids.map later.subscriber? = made.map (fun binding => some ⟨.binding binding, true, 0⟩)
  settles : ∀ root, (∀ binding ∈ made, binding.context.data = root) → state.Rooted root →
    later.Rooted root ∧ state.Settles False later

variable {state later final : State κ σ} {ids ids' : List SubscriberId}
  {made made' : List (Binding κ)}

namespace Made

theorem sameCore (same : state.SameCore later) : state.Made later [] [] where
  data := same.store ▸ Store.SameData.refl _
  size := congrArg Array.size same.subscribers
  new := rfl
  earlier := fun id _ => same.subscriber? id
  bindings := rfl
  settles := fun root _ => (Conduct.freshness κ σ root False).same same

theorem refl (state : State κ σ) : state.Made state [] [] :=
  .sameCore (.refl state)

theorem length (made : state.Made later ids made') : ids.length = made'.length := by
  have same := congrArg List.length made.bindings
  simpa using same

theorem map_blueprint? (made : state.Made later ids made') :
    ids.map later.blueprint? = (made'.map Binding.blueprint).map some := by
  apply List.ext_getElem
  · simpa using made.length
  · intro index inside inside'
    have inside : index < ids.length := by simpa using inside
    have inside' : index < made'.length := by simpa using inside'
    have found : later.subscriber? ids[index] = some ⟨.binding made'[index], true, 0⟩ := by
      have same := congrArg (fun found => found[index]?) made.bindings
      simpa [inside, inside'] using same
    simp [blueprint?, binding?, found]

theorem subscriber_of_mem (made : state.Made later ids made') {id : SubscriberId}
    (member : id ∈ ids) :
    ∃ binding ∈ made', later.subscriber? id = some ⟨.binding binding, true, 0⟩ := by
  have found : later.subscriber? id ∈ ids.map later.subscriber? := List.mem_map_of_mem member
  rw [made.bindings] at found
  obtain ⟨binding, among, same⟩ := List.mem_map.mp found
  exact ⟨binding, among, same.symm⟩

theorem isAlive (made : state.Made later ids made') {id : SubscriberId} (member : id ∈ ids) :
    later.isAlive id = true := by
  obtain ⟨binding, -, found⟩ := made.subscriber_of_mem member
  rw [State.isAlive, found]
  rfl

theorem mem_iff (made : state.Made later ids made') {id : SubscriberId} : id ∈ ids ↔
    state.subscribers.size ≤ id.index ∧ id.index < later.subscribers.size := by
  rw [made.size, made.new]
  constructor
  · intro member
    obtain ⟨index, among, rfl⟩ := List.mem_map.mp member
    simpa using List.mem_range'_1.mp among
  · rintro ⟨new, there⟩
    refine List.mem_map.mpr ⟨id.index, List.mem_range'_1.mpr ⟨new, ?_⟩, rfl⟩
    simpa using there

theorem nodup (made : state.Made later ids made') : ids.Nodup := by
  rw [made.new]
  refine List.Nodup.map ?_ List.nodup_range'
  intro first second same
  exact congrArg SubscriberId.index same

theorem lt_of_mem (made : state.Made later ids made') {id : SubscriberId} (member : id ∈ ids) :
    id.index < later.subscribers.size :=
  (made.mem_iff.mp member).2

theorem trans (first : state.Made later ids made) (second : later.Made final ids' made') :
    state.Made final (ids ++ ids') (made ++ made') where
  data := first.data.trans second.data
  size := by rw [second.size, first.size, List.length_append, Nat.add_assoc]
  new := by
    have whole : List.range' state.subscribers.size (ids.length + ids'.length) =
        List.range' state.subscribers.size ids.length ++
          List.range' later.subscribers.size ids'.length := by
      rw [first.size, List.range'_append_1]
    rw [List.length_append, whole, List.map_append, ← second.new, ← first.new]
  earlier := by
    intro id before
    rw [second.earlier id (first.size ▸ Nat.lt_add_right _ before), first.earlier id before]
  bindings := by
    rw [List.map_append, List.map_append, second.bindings, ← first.bindings]
    congr 1
    apply List.map_congr_left
    intro id member
    exact second.earlier id (first.lt_of_mem member)
  settles := by
    intro root about rooted
    obtain ⟨rooted', settles⟩ := first.settles root
      (fun binding member => about binding (List.mem_append_left _ member)) rooted
    obtain ⟨rooted'', settles'⟩ := second.settles root
      (fun binding member => about binding (List.mem_append_right _ member)) rooted'
    exact ⟨rooted'', settles.trans settles'⟩

end Made

end State

namespace Engine

variable {invoke : Invoke κ σ} {state later : State κ σ}

theorem ok_of_bindFormula {source : String} {formula : Formula} {context : Context κ}
    {reaction : Reaction κ} {spot : Spot} {id : SubscriberId}
    (plain : formula.callsNone context.methods = true) (sets : reaction.spot? = some spot)
    (ended : bindFormula invoke source formula context reaction state = .ended (.ok id) later) :
    ∃ binding value setting, state.Made later [id] [binding] ∧
      binding.blueprint = ⟨source, formula, context, reaction⟩ ∧ binding.handed = some value ∧
      reaction.setting? state.store value = some setting ∧
      later.document = state.document.set setting := by
  let binding : Binding κ := ⟨source, formula, context, reaction, [], none, none⟩
  let added := (state.addSubscriber ⟨.binding binding, true, 0⟩).2
  have found : added.subscriber? ⟨state.subscribers.size⟩ = some ⟨.binding binding, true, 0⟩ :=
    State.subscriber?_addSubscriber state _
  have alive : added.isAlive ⟨state.subscribers.size⟩ = true := by
    rw [State.isAlive, found]
    rfl
  have settles (root : RecordId) (about : context.data = root) (rooted : state.Rooted root) :
      later.Rooted root ∧ state.Settles False later := by
    have suits : (Conduct.freshness κ σ root False).Suits invoke reaction :=
      Conduct.suits_of_document (Reaction.ne_code sets)
    have meets := meets_bindFormula suits rooted source plain about
    rw [ended] at meets
    exact ⟨meets.1, meets.2.1⟩
  obtain ⟨new, middle, start, ended⟩ := ok_of_bind ended
  injection start with same start
  injection same with same
  subst same start
  obtain ⟨outcome, after, tried, ended⟩ := ok_of_bind ended
  have ran := ok_of_attempt tried
  cases outcome with
  | error error =>
      obtain ⟨_, _, _, ended⟩ := ok_of_bind ended
      cases ended
  | ok result =>
      injection ended with same ended
      injection same with same
      subst ended
      obtain ⟨value, setting, refreshed⟩ := ok_of_run plain sets found alive ran
      have whole := (State.sameButFor_addSubscriber state ⟨.binding binding, true, 0⟩).trans
        refreshed.same
      have size : after.subscribers.size = state.subscribers.size + 1 :=
        refreshed.size.trans (Array.size_push _)
      refine ⟨{ binding.evaluated state.store with handed := some value }, value, setting,
        ⟨whole.data, size, by rw [← same]; rfl, ?_, ?_, ?_⟩, rfl, rfl, refreshed.sets,
        refreshed.document⟩
      · intro id before
        exact whole.others id (fun here => Nat.lt_irrefl _ (by rw [here] at before; exact before))
      · rw [← same, List.map_singleton, List.map_singleton]
        exact congrArg ([·]) refreshed.subscriber
      · exact fun root about => settles root (about _ (List.mem_singleton_self _))

end Engine

end ReactiveView
