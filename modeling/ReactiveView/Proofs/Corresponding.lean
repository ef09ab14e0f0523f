import ReactiveView.Proofs.Attributing
import ReactiveView.Proofs.Tending

/-!
# Runs of the engine, gone through once

Relations between computations that whatever the engine is put together from respects. If
such a relation holds of the programs that two kinds of callers' code run on each occasion,
then it holds of every operation, however passes and callers' code are nested in one
another. Reactions need it only from states in which no evaluation is in progress. The two
kinds of callers' code may be one: then it is a fact about single computations.
-/

namespace ReactiveView

set_option autoImplicit false

open Engine

/-- What the engine does to a state of its own accord: it leaves alone what containers hold,
and the document. -/
inductive State.Upkeep {κ σ : Type} (state : State κ σ) : State κ σ → Prop where
  | noted (warnings : List Warning) (host : σ) : Upkeep state { state with warnings, host }
  | added (role : Role κ) : Upkeep state (state.addSubscriber ⟨role, true, 0⟩).2
  | handed (id : SubscriberId) (value : Value) : Upkeep state (state.hand id value)
  | joined (registry : RegistryId) (id : SubscriberId) :
      Upkeep state (state.changeStore (·.register registry id))
  | left (registry : RegistryId) (id : SubscriberId) :
      Upkeep state (state.changeStore (·.unregister registry id))
  | dropped (id : SubscriberId) : Upkeep state (state.drop id)

/-- The changes of states that are let pass. -/
structure Passage (κ σ : Type) where
  leads : State κ σ → State κ σ → Prop
  /-- The texts and properties that callers' code may set. -/
  asks : Document.Setting → Prop
  refl : ∀ state, leads state state
  trans : ∀ {state later final}, leads state later → leads later final → leads state final
  keeps : ∀ {state later : State κ σ}, state.Upkeep later → leads state later
  edits : ∀ (edit : Document.Edit (Listener κ)) (state : State κ σ),
    (∀ setting, edit.setting? = some setting → asks setting) →
      leads state (state.changeDocument (fun document => edit.make document))

namespace Passage

variable {κ σ : Type}

/-- It lets pass every change of data that leaves the subscribers where they are. -/
def Free (passage : Passage κ σ) : Prop :=
  ∀ (state : State κ σ) (store : Store),
    (∀ registry, store.subscribers registry = state.store.subscribers registry) →
    (state.store.Ranged → store.Ranged) → passage.leads state { state with store }

/-- All that can happen while the observer slot stays as it is. -/
def moves (κ σ : Type) : Passage κ σ where
  leads := State.Moves (fun _ => False)
  asks := fun _ => True
  refl := fun _ => .refl
  trans := .trans
  keeps := by
    intro state later upkeep
    cases upkeep with
    | noted warnings host => exact .single (.outside _ _ _)
    | added role => exact .single (.added role)
    | handed id value => exact .single (.handed id value)
    | joined registry id => exact .single (.joined registry id)
    | left registry id => exact .single (.left registry id not_false)
    | dropped id => exact .single (.dropped id)
  edits := fun _ _ _ => .single (.outside _ _ _)

theorem free_moves : (moves κ σ).Free := fun _ store same ranged => .single (.data store same ranged)

end Passage

/-- A relation between computations from a state on, with the changes that it lets pass. -/
structure Correspondence (κ σ : Type) extends Passage κ σ where
  holds : {α : Type} → Engine κ σ α → Engine κ σ α → State κ σ → Prop
  stops : ∀ {α : Type} (state : State κ σ),
    holds (fun state => .stopped state : Engine κ σ α) (fun state => .stopped state) state
  fails : ∀ {α : Type} (error : Error) (state : State κ σ),
    holds (Engine.fail error : Engine κ σ α) (Engine.fail error) state
  changes : ∀ {α : Type} (change : State κ σ → α × State κ σ) {state : State κ σ},
    leads state (change state).2 → holds (transform change) (transform change) state
  reads : ∀ (place : Place) (state : State κ σ),
    holds (transform (State.read place)) (transform (State.read place)) state
  binds : ∀ {α β : Type} {first first' : Engine κ σ α} {second second' : α → Engine κ σ β}
    {state : State κ σ}, holds first first' state →
      (∀ value between, first state = .ended (.ok value) between →
        holds (second value) (second' value) between) →
      holds (first >>= second) (first' >>= second') state
  attempts : ∀ {α : Type} {body body' : Engine κ σ α} {state : State κ σ},
    holds body body' state → holds (Engine.attempt body) (Engine.attempt body') state
  runs : ∀ {α : Type} {body body' : Engine κ σ α} {id : SubscriberId} {state : State κ σ},
    holds body body' (state.enter id) →
      holds (whileRunning id body) (whileRunning id body') state
  suspends : ∀ {α : Type} {body body' : Engine κ σ α} {state : State κ σ},
    holds body body' { state with observer := none } →
      holds (untracked body) (untracked body') state
  refuses : ∀ {invoke invoke' : Invoke κ σ} {id : SubscriberId} {binding : Binding κ}
    {state : State κ σ} {observer : Observer}, state.observer = some observer →
      holds (evaluateBinding invoke id binding) (evaluateBinding invoke' id binding) state
  evaluates : ∀ {invoke invoke' : Invoke κ σ} {id : SubscriberId} {binding : Binding κ}
    {state : State κ σ}, state.observer = none →
      holds (evaluateFormula invoke binding.context binding.formula)
        (evaluateFormula invoke' binding.context binding.formula) (state.observing id) →
      holds (evaluateBinding invoke id binding) (evaluateBinding invoke' id binding) state
  sets : ∀ {invoke invoke' : Invoke κ σ} {id : SubscriberId} {binding : Binding κ}
    {state between : State κ σ} {value : Value} {setting : Document.Setting},
    state.binding? id = some binding →
      holds (evaluateBinding invoke id binding) (evaluateBinding invoke' id binding) state →
      evaluateBinding invoke id binding state = .ended (.ok value) between →
      binding.reaction.setting? between.store value = some setting →
      leads (between.hand id value)
        ((between.hand id value).changeDocument (fun document => document.set setting))

/-- Between callers' codes it holds of each program, and of those of reactions where no
evaluation is in progress. -/
def Correspondence.Joins {κ σ : Type} (relation : Correspondence κ σ)
    (invoke invoke' : Invoke κ σ) : Prop :=
  ∀ body occasion state, (∀ value, occasion = .updated value → state.observer = none) →
    relation.holds (invoke body occasion) (invoke' body occasion) state

namespace Engine

variable {κ σ α β : Type} {relation : Correspondence κ σ} {state : State κ σ}

theorem corresponds_look (view : State κ σ → α) :
    relation.holds (look view) (look view) state :=
  relation.changes (fun state => (view state, state)) (relation.refl state)

theorem corresponds_pure (value : α) : relation.holds (pure value) (pure value) state :=
  corresponds_look (fun _ => value)

theorem corresponds_ofExcept (outcome : Except Error α) :
    relation.holds (ofExcept outcome) (ofExcept outcome) state := by
  cases outcome with
  | ok value => exact corresponds_pure value
  | error error => exact relation.fails error state

theorem corresponds_alter {change : State κ σ → State κ σ}
    (leads : relation.leads state (change state)) :
    relation.holds (alter change) (alter change) state :=
  relation.changes (fun state => ((), change state)) leads

/-- What comes after a look at the state knows what it has seen. -/
theorem corresponds_after_look {view : State κ σ → α} {second second' : α → Engine κ σ β}
    (next : relation.holds (second (view state)) (second' (view state)) state) :
    relation.holds (look view >>= second) (look view >>= second') state := by
  apply relation.binds (corresponds_look view)
  rintro value between ⟨⟩
  exact next

theorem corresponds_after_alter {change : State κ σ → State κ σ}
    {second second' : Unit → Engine κ σ β}
    (leads : relation.leads state (change state))
    (next : relation.holds (second ()) (second' ()) (change state)) :
    relation.holds (alter change >>= second) (alter change >>= second') state := by
  apply relation.binds (corresponds_alter leads)
  rintro value between ⟨⟩
  exact next

theorem corresponds_after_ofExcept {outcome : Except Error α} {second second' : α → Engine κ σ β}
    (next : ∀ value, relation.holds (second value) (second' value) state) :
    relation.holds (ofExcept outcome >>= second) (ofExcept outcome >>= second') state := by
  apply relation.binds (corresponds_ofExcept outcome)
  rintro value between ⟨⟩
  exact next value

/-- A result that is thrown away. -/
theorem corresponds_ignored {first first' : Engine κ σ α} {result : β}
    (here : relation.holds first first' state) :
    relation.holds (first >>= fun _ => pure result) (first' >>= fun _ => pure result) state :=
  relation.binds here (fun _ _ _ => corresponds_pure result)

theorem corresponds_forEach {body body' : α → Engine κ σ Unit}
    (each : ∀ value state, relation.holds (body value) (body' value) state) (values : List α)
    (state : State κ σ) :
    relation.holds (forEach body values) (forEach body' values) state := by
  induction values generalizing state with
  | nil => exact corresponds_pure ()
  | cons first rest induction =>
      apply relation.binds (each first state)
      intro _ between _
      exact induction between

theorem corresponds_collect {body body' : α → Engine κ σ β}
    (each : ∀ value state, relation.holds (body value) (body' value) state) (values : List α)
    (state : State κ σ) :
    relation.holds (collect body values) (collect body' values) state := by
  induction values generalizing state with
  | nil => exact corresponds_pure []
  | cons first rest induction =>
      apply relation.binds (each first state)
      intro result between _
      exact relation.binds (induction between) (fun _ _ _ => corresponds_pure _)

theorem corresponds_readAccess (access : Access) :
    relation.holds (readAccess access) (readAccess access) state := by
  cases access with
  | value value => exact corresponds_pure value
  | slot place => exact relation.binds (relation.reads place state) (fun _ _ _ => corresponds_pure _)

theorem corresponds_readName (context : Context κ) (name : String) :
    relation.holds (readName context name) (readName context name) state := by
  apply relation.binds (relation.reads _ state)
  intro found between _
  cases found with
  | some value => exact corresponds_pure value
  | none =>
      change relation.holds (ite _ _ _) (ite _ _ _) between
      split
      · exact relation.fails _ between
      · exact relation.fails _ between

section

variable {invoke invoke' : Invoke κ σ} (joins : relation.Joins invoke invoke')
include joins

theorem corresponds_callMethod (context : Context κ) (name : String) (arguments : List Value)
    (state : State κ σ) :
    relation.holds (callMethod invoke context name arguments)
      (callMethod invoke' context name arguments) state := by
  unfold callMethod
  split
  · exact joins _ _ state nofun
  · exact relation.fails _ state

theorem corresponds_callName (context : Context κ) (name : String) (arguments : List Value)
    (state : State κ σ) :
    relation.holds (callName invoke context name arguments)
      (callName invoke' context name arguments) state := by
  apply corresponds_after_look
  split
  · exact relation.fails _ state
  · split
    · exact corresponds_callMethod joins context name arguments state
    · split
      · exact corresponds_pure _
      · exact relation.fails _ state

end

mutual

theorem corresponds_evaluate {invoke invoke' : Invoke κ σ} (joins : relation.Joins invoke invoke')
    (context : Context κ) (expression : Expression) (state : State κ σ) :
    relation.holds (evaluate invoke context expression) (evaluate invoke' context expression)
      state := by
  cases expression with
  | literal constant => exact corresponds_pure _
  | identifier name => exact corresponds_readName context name
  | member target name =>
      apply relation.binds (corresponds_evaluate joins context target state)
      intro value between _
      apply corresponds_after_look
      exact corresponds_after_ofExcept corresponds_readAccess
  | index target position =>
      apply relation.binds (corresponds_evaluate joins context target state)
      intro value between _
      apply relation.binds (corresponds_evaluate joins context position between)
      intro index between' _
      apply corresponds_after_look
      exact corresponds_after_ofExcept corresponds_readAccess
  | call callee arguments =>
      cases callee with
      | identifier name =>
          apply relation.binds (corresponds_evaluateAll joins context arguments state)
          intro values between _
          exact corresponds_callName joins context name values between
      | _ => exact relation.fails _ state
  | unary operator operand =>
      apply relation.binds (corresponds_evaluate joins context operand state)
      intro value between _
      apply corresponds_after_look
      exact corresponds_ofExcept _
  | binary operator left right =>
      apply relation.binds (corresponds_evaluate joins context left state)
      intro first between _
      apply relation.binds (corresponds_evaluate joins context right between)
      intro second between' _
      apply corresponds_after_look
      exact corresponds_ofExcept _
  | logical operator left right =>
      have others := corresponds_evaluate joins context right
      cases operator with
      | and =>
          apply relation.binds (corresponds_evaluate joins context left state)
          intro first between _
          split
          · exact others between
          · exact corresponds_pure first
      | or =>
          apply relation.binds (corresponds_evaluate joins context left state)
          intro first between _
          split
          · exact corresponds_pure first
          · exact others between
  | conditional condition consequent alternative =>
      apply relation.binds (corresponds_evaluate joins context condition state)
      intro value between _
      split
      · exact corresponds_evaluate joins context consequent between
      · exact corresponds_evaluate joins context alternative between

theorem corresponds_evaluateAll {invoke invoke' : Invoke κ σ}
    (joins : relation.Joins invoke invoke') (context : Context κ) (expressions : List Expression)
    (state : State κ σ) :
    relation.holds (evaluate.evaluateAll invoke context expressions)
      (evaluate.evaluateAll invoke' context expressions) state := by
  cases expressions with
  | nil => exact corresponds_pure []
  | cons first rest =>
      apply relation.binds (corresponds_evaluate joins context first state)
      intro value between _
      apply relation.binds (corresponds_evaluateAll joins context rest between)
      intro values between' _
      exact corresponds_pure _

end

section

variable {invoke invoke' : Invoke κ σ} (joins : relation.Joins invoke invoke')
include joins

theorem corresponds_evaluateParts (context : Context κ) (parts : List Template.Part)
    (state : State κ σ) :
    relation.holds (evaluateParts invoke context parts) (evaluateParts invoke' context parts)
      state := by
  induction parts generalizing state with
  | nil => exact corresponds_pure ""
  | cons part rest induction =>
      cases part with
      | text content =>
          apply relation.binds (induction state)
          intro others between _
          exact corresponds_pure _
      | expression body =>
          apply relation.binds (corresponds_evaluate joins context body state)
          intro value between _
          apply corresponds_after_look
          apply relation.binds (induction between)
          intro others between' _
          exact corresponds_pure _

theorem corresponds_evaluateFormula (context : Context κ) (formula : Formula)
    (state : State κ σ) :
    relation.holds (evaluateFormula invoke context formula)
      (evaluateFormula invoke' context formula) state := by
  cases formula with
  | expression body => exact corresponds_evaluate joins context body state
  | template body =>
      apply relation.binds (corresponds_evaluateParts joins context body.parts state)
      intro text between _
      exact corresponds_pure _

theorem corresponds_evaluateUntracked (context : Context κ) (formula : Formula)
    (state : State κ σ) :
    relation.holds (evaluateUntracked invoke context formula)
      (evaluateUntracked invoke' context formula) state :=
  relation.suspends (corresponds_evaluateFormula joins context formula _)

theorem corresponds_evaluateBinding (id : SubscriberId) (binding : Binding κ)
    (state : State κ σ) :
    relation.holds (evaluateBinding invoke id binding) (evaluateBinding invoke' id binding)
      state := by
  cases observed : state.observer with
  | none =>
      exact relation.evaluates observed
        (corresponds_evaluateFormula joins binding.context binding.formula _)
  | some observer => exact relation.refuses observed

theorem corresponds_react (reaction : Reaction κ) (value : Value)
    (idle : state.observer = none)
    (sets : ∀ setting, reaction.setting? state.store value = some setting →
      relation.leads state (state.changeDocument (fun document => document.set setting))) :
    relation.holds (react invoke reaction value) (react invoke' reaction value) state := by
  cases reaction with
  | code body => exact corresponds_ignored (joins body _ state (fun _ _ => idle))
  | textContent node =>
      apply corresponds_after_look
      exact corresponds_alter (sets _ rfl)
  | renderedText node =>
      apply corresponds_after_look
      exact corresponds_alter (sets _ rfl)
  | property node name => exact corresponds_alter (sets _ rfl)

theorem corresponds_refresh {id : SubscriberId} {binding : Binding κ}
    (found : state.binding? id = some binding) :
    relation.holds (refresh invoke id binding) (refresh invoke' id binding) state := by
  have evaluates := corresponds_evaluateBinding joins id binding state
  apply relation.binds evaluates
  intro value between ended
  have idle : between.observer = none := observer_of_evaluated ended
  apply corresponds_after_alter (relation.keeps (.handed id value))
  apply corresponds_react joins binding.reaction value
  · exact idle
  · exact fun _ sets => relation.sets found evaluates ended sets

theorem corresponds_notify (id : SubscriberId) (state : State κ σ) :
    relation.holds (notify invoke id) (notify invoke' id) state := by
  apply corresponds_after_look
  cases present : state.subscriber? id with
  | none => exact corresponds_pure ()
  | some subscriber =>
      obtain ⟨role, held, underWay⟩ := subscriber
      cases role with
      | code body => exact relation.runs (corresponds_ignored (joins _ .notified _ nofun))
      | binding binding =>
          apply relation.runs
          apply corresponds_refresh joins
          rw [State.binding?_enter]
          exact State.binding?_eq_some_iff.mpr ⟨held, underWay, present⟩

theorem corresponds_takeTurn (registry : RegistryId) (id : SubscriberId) (state : State κ σ) :
    relation.holds (takeTurn invoke registry id) (takeTurn invoke' registry id) state := by
  apply corresponds_after_look
  apply corresponds_after_look
  split
  · split
    · exact corresponds_notify joins id state
    · exact corresponds_alter (relation.keeps (.left registry id))
  · exact corresponds_pure ()

theorem corresponds_notifyAll (registry : RegistryId) (state : State κ σ) :
    relation.holds (notifyAll invoke registry) (notifyAll invoke' registry) state := by
  apply corresponds_after_look
  exact corresponds_forEach (corresponds_takeTurn joins registry) _ state

/-- A write changes the data first; what comes after it is a pass. -/
theorem corresponds_write_of {place : Place} {value : Value}
    (reactive : ∀ old registry, state.store.slot? place = some ⟨old, some registry⟩ →
      relation.leads state (state.changeStore (·.overwrite place value registry)))
    (plain : ∀ old, state.store.slot? place = some ⟨old, none⟩ →
      relation.leads state (state.changeStore (·.put place (.plain value))))
    (absent : ∀ record key, place = .field record key → state.store.slot? place = none →
      relation.leads state (state.changeStore (·.put place (.plain value)))) :
    relation.holds (write invoke place value) (write invoke' place value) state := by
  apply corresponds_after_look
  cases found : state.store.slot? place with
  | none =>
      cases place with
      | field record key => exact corresponds_alter (absent record key rfl found)
      | item list index => exact relation.fails _ state
  | some slot =>
      obtain ⟨old, registry⟩ := slot
      cases registry with
      | none => exact corresponds_alter (plain old found)
      | some registry =>
          apply corresponds_after_alter (reactive old registry found)
          exact corresponds_notifyAll joins registry _

theorem corresponds_write (free : relation.Free) (place : Place) (value : Value)
    (state : State κ σ) :
    relation.holds (write invoke place value) (write invoke' place value) state := by
  have plain : relation.leads state (state.changeStore (·.put place (.plain value))) :=
    free state _ (Store.subscribers_put _ _ _)
      (fun ranged => Store.ranged_put_plain ranged place value)
  apply corresponds_write_of joins
  · intro old registry found
    have attached : state.store.registryAt place = some registry := by
      simp only [Store.registryAt, found, Option.bind_some]
    exact free state _ (Store.subscribers_overwrite _ _ _ _)
      (fun ranged => Store.ranged_overwrite ranged attached value)
  · exact fun _ _ => plain
  · exact fun _ _ _ _ => plain

theorem corresponds_launch (binding : Binding κ) (state : State κ σ) :
    relation.holds
      (attempt (whileRunning ⟨state.subscribers.size⟩
        (refresh invoke ⟨state.subscribers.size⟩ binding)))
      (attempt (whileRunning ⟨state.subscribers.size⟩
        (refresh invoke' ⟨state.subscribers.size⟩ binding)))
      (state.addSubscriber ⟨.binding binding, true, 0⟩).2 := by
  apply relation.attempts
  apply relation.runs
  apply corresponds_refresh joins
  rw [State.binding?_enter]
  exact state.binding?_addSubscriber binding

theorem corresponds_bindFormula (source : String) (formula : Formula) (context : Context κ)
    (reaction : Reaction κ) (state : State κ σ) :
    relation.holds (bindFormula invoke source formula context reaction)
      (bindFormula invoke' source formula context reaction) state := by
  apply relation.binds (relation.changes _ (relation.keeps (.added _)))
  rintro id between ⟨⟩
  apply relation.binds (corresponds_launch joins _ state)
  intro outcome between' _
  cases outcome with
  | ok _ => exact corresponds_pure _
  | error error =>
      apply corresponds_after_alter (relation.keeps (.dropped _))
      exact relation.fails error _

theorem corresponds_reevaluate (id : SubscriberId) (state : State κ σ) :
    relation.holds (reevaluate invoke id) (reevaluate invoke' id) state := by
  apply corresponds_after_look
  split
  · exact corresponds_notify joins id state
  · exact corresponds_pure ()

theorem corresponds_assign (free : relation.Free) (root : RecordId) (path : List String)
    (value : Value) (state : State κ σ) :
    relation.holds (assign invoke root path value) (assign invoke' root path value) state := by
  unfold assign
  split
  · exact corresponds_pure ()
  · apply corresponds_after_look
    apply corresponds_after_ofExcept
    intro record
    exact corresponds_write joins free _ value state

theorem corresponds_runHandler (context : Context κ) (handler : Handler) (state : State κ σ) :
    relation.holds (runHandler invoke context handler) (runHandler invoke' context handler)
      state := by
  cases handler with
  | unresolved source => exact relation.fails _ state
  | method name arguments =>
      apply relation.binds
        (corresponds_collect (fun _ => corresponds_evaluateUntracked joins context _) arguments
          state)
      intro values between _
      exact corresponds_ignored (corresponds_callMethod joins context name values between)

theorem corresponds_runListener (free : relation.Free) (event : String) (target : NodeId)
    (listener : Listener κ) (state : State κ σ) :
    relation.holds (runListener invoke event target listener)
      (runListener invoke' event target listener) state := by
  cases listener with
  | code body => exact corresponds_ignored (joins body _ state nofun)
  | writeBack context property path =>
      apply corresponds_after_look
      exact corresponds_assign joins free context.data path _ state
  | handler context handler => exact corresponds_runHandler joins context handler state

theorem corresponds_dispatch (free : relation.Free) (target : NodeId) (event : String)
    (state : State κ σ) :
    relation.holds (dispatch invoke target event) (dispatch invoke' target event) state := by
  apply corresponds_after_look
  exact corresponds_forEach (corresponds_runListener joins free event target) _ state

end

end Engine

end ReactiveView
