import ReactiveView.Data.Store
import ReactiveView.Document.Basic
import ReactiveView.Error
import ReactiveView.Template

/-!
# The state of a running view

The data store, the subscribers, the observer slot and the document, with the
code that callers supply kept as inert descriptions: `κ` is the type of those
descriptions, and `σ` the type of what the caller's code keeps for itself.
-/

namespace ReactiveView

set_option autoImplicit false

/-- The scope of an evaluation: the root record and the methods by name. -/
structure Context (κ : Type) where
  data : RecordId
  methods : Dictionary κ

inductive Formula where
  | expression (body : Expression)
  | template (body : Template)

namespace Formula

def shown : Formula → String
  | expression body => body.shown
  | template body => body.shown

end Formula

/-- What a binding does with each new value. -/
inductive Reaction (κ : Type) where
  | code (body : κ)
  /-- Sets the text of a node; null gives no text. -/
  | textContent (node : NodeId)
  /-- Sets the text of a node to the text of the value. -/
  | renderedText (node : NodeId)
  | property (node : NodeId) (name : String)

/-- How an evaluation of a binding went: the data it ran on, the subscriptions
from before it, and its outcome. -/
structure Evaluation where
  data : Store
  earlier : List RegistryId
  outcome : Except Error Value

/-- A formula kept in step with the data. The subscriptions are the registries
that its latest evaluation read, and after a failure also those of before. -/
structure Binding (κ : Type) where
  source : String
  formula : Formula
  context : Context κ
  reaction : Reaction κ
  subscriptions : List RegistryId
  latest : Option Evaluation
  /-- The value that its reaction last started with. -/
  handed : Option Value

inductive Role (κ : Type) where
  | binding (binding : Binding κ)
  | code (body : κ)

/-- A subscriber. It is alive while someone holds it or a run of it is under
way. -/
structure Subscriber (κ : Type) where
  role : Role κ
  held : Bool
  underWay : Nat

namespace Subscriber

def isAlive {κ : Type} (subscriber : Subscriber κ) : Bool :=
  subscriber.held || subscriber.underWay ≠ 0

end Subscriber

/-- The evaluation whose reads become dependencies, and the registries it has
read so far, each once. -/
structure Observer where
  subscriber : SubscriberId
  reads : List RegistryId

inductive Handler where
  | method (name : String) (arguments : List Expression)
  | unresolved (source : String)

inductive Listener (κ : Type) where
  | code (body : κ)
  /-- Writes a property of the event's target back to a path below the root. -/
  | writeBack (context : Context κ) (property : String) (path : List String)
  | handler (context : Context κ) (handler : Handler)

structure State (κ σ : Type) where
  store : Store
  observer : Option Observer
  subscribers : Array (Subscriber κ)
  document : Document (Listener κ)
  warnings : List Warning
  /-- What the caller's code keeps for itself. -/
  host : σ

namespace State

variable {κ σ : Type}

def initial (host : σ) : State κ σ := ⟨.empty, none, #[], .initial, [], host⟩

def subscriber? (state : State κ σ) (id : SubscriberId) : Option (Subscriber κ) :=
  state.subscribers[id.index]?

def binding? (state : State κ σ) (id : SubscriberId) : Option (Binding κ) :=
  match state.subscriber? id with
  | some ⟨.binding binding, _, _⟩ => some binding
  | _ => none

def isAlive (state : State κ σ) (id : SubscriberId) : Bool :=
  (state.subscriber? id).any Subscriber.isAlive

def isTracking (state : State κ σ) : Bool := state.observer.isSome

def changeStore (change : Store → Store) (state : State κ σ) : State κ σ :=
  { state with store := change state.store }

def changeDocument (change : Document (Listener κ) → Document (Listener κ))
    (state : State κ σ) : State κ σ :=
  { state with document := change state.document }

def changeSubscriber (id : SubscriberId) (change : Subscriber κ → Subscriber κ)
    (state : State κ σ) : State κ σ :=
  { state with subscribers := state.subscribers.modify id.index change }

def addSubscriber (subscriber : Subscriber κ) (state : State κ σ) : SubscriberId × State κ σ :=
  (⟨state.subscribers.size⟩, { state with subscribers := state.subscribers.push subscriber })

def warn (warning : Warning) (state : State κ σ) : State κ σ :=
  { state with warnings := state.warnings ++ [warning] }

def changeBinding (id : SubscriberId) (change : Binding κ → Binding κ) (state : State κ σ) :
    State κ σ :=
  state.changeSubscriber id (fun subscriber =>
    match subscriber.role with
    | .binding binding => { subscriber with role := .binding (change binding) }
    | .code _ => subscriber)

/-- The registry of the slot at a place joins the reads of the observer, and the
observer joins the registry. -/
def track (registry : RegistryId) (state : State κ σ) : State κ σ :=
  match state.observer with
  | none => state
  | some observer =>
      if registry ∈ observer.reads then state
      else
        { state with
          store := state.store.register registry observer.subscriber
          observer := some { observer with reads := observer.reads ++ [registry] } }

/-- Reads a slot for the observer. A missing slot leaves no trace. -/
def read (place : Place) (state : State κ σ) : Option Value × State κ σ :=
  match state.store.slot? place with
  | none => (none, state)
  | some ⟨value, none⟩ => (some value, state)
  | some ⟨value, some registry⟩ => (some value, state.track registry)

/-- After a successful evaluation a binding leaves the registries that it has
not read again. After a failed one it keeps all it had beside all it has read,
so that mending any of them runs it again. -/
def reconcile (id : SubscriberId) (reads : List RegistryId) (data : Store)
    (outcome : Except Error Value) (state : State κ σ) : State κ σ :=
  match state.binding? id, outcome with
  | none, _ => state
  | some binding, .ok _ =>
      let stale := binding.subscriptions.filter (· ∉ reads)
      (state.changeStore (·.unregisterAll stale id)).changeBinding id (fun binding =>
        { binding with
          subscriptions := reads
          latest := some ⟨data, binding.subscriptions, outcome⟩ })
  | some _, .error _ =>
      state.changeBinding id (fun binding =>
        { binding with
          subscriptions :=
            binding.subscriptions ++ reads.filter (· ∉ binding.subscriptions)
          latest := some ⟨data, binding.subscriptions, outcome⟩ })

def hand (id : SubscriberId) (value : Value) (state : State κ σ) : State κ σ :=
  state.changeBinding id (fun binding => { binding with handed := some value })

/-- A subscriber that is no longer alive leaves the registries it subscribed
to. -/
def settle (id : SubscriberId) (state : State κ σ) : State κ σ :=
  match state.binding? id with
  | none => state
  | some binding =>
      if state.isAlive id then state
      else
        (state.changeStore (·.unregisterAll binding.subscriptions id)).changeBinding id
          (fun binding => { binding with subscriptions := [] })

/-- Gives up the hold on a subscriber. -/
def drop (id : SubscriberId) (state : State κ σ) : State κ σ :=
  (state.changeSubscriber id (fun subscriber => { subscriber with held := false })).settle id

def enter (id : SubscriberId) (state : State κ σ) : State κ σ :=
  state.changeSubscriber id (fun subscriber =>
    { subscriber with underWay := subscriber.underWay + 1 })

def leave (id : SubscriberId) (state : State κ σ) : State κ σ :=
  (state.changeSubscriber id (fun subscriber =>
    { subscriber with underWay := subscriber.underWay - 1 })).settle id

end State

end ReactiveView
