import ReactiveView.Document.Content
import ReactiveView.Reactive.Evaluation

/-!
# Notification

A write to a reactive slot notifies the subscribers of its registry before it
returns. A pass works on the subscribers that were there when it began, in
their order; one that has left by its turn is skipped, one that is no longer
alive is taken out, and the first error ends the pass. A notified binding is
evaluated again and hands the value on.
-/

namespace ReactiveView.Engine

set_option autoImplicit false

variable {κ σ : Type}

/-- Evaluates a binding as the observer and brings its subscriptions in line
with what it read. -/
def evaluateBinding (invoke : Invoke κ σ) (id : SubscriberId) (binding : Binding κ) :
    Engine κ σ Value := do
  let data ← look State.store
  observe id
  let outcome ← attempt (evaluateFormula invoke binding.context binding.formula)
  let reads ← finish
  alter (State.reconcile id reads data outcome)
  ofExcept outcome

def react (invoke : Invoke κ σ) (reaction : Reaction κ) (value : Value) : Engine κ σ Unit :=
  match reaction with
  | .code body => do
      let _ ← invoke body (.updated value)
      pure ()
  | .textContent node => do
      let store ← look State.store
      let text := if value = .null then "" else store.text value
      alter (State.changeDocument (·.setTextContent node text))
  | .renderedText node => do
      let store ← look State.store
      alter (State.changeDocument (·.setTextContent node (store.text value)))
  | .property node name => alter (State.changeDocument (·.setProperty node name value))

def refresh (invoke : Invoke κ σ) (id : SubscriberId) (binding : Binding κ) :
    Engine κ σ Unit := do
  let value ← evaluateBinding invoke id binding
  alter (State.hand id value)
  react invoke binding.reaction value

def notify (invoke : Invoke κ σ) (id : SubscriberId) : Engine κ σ Unit := do
  match ← look (fun state => (state.subscriber? id).map Subscriber.role) with
  | some (.binding binding) => whileRunning id (refresh invoke id binding)
  | some (.code body) =>
      whileRunning id (do
        let _ ← invoke body .notified
        pure ())
  | none => pure ()

/-- The turn of one subscriber in a pass over a registry. -/
def takeTurn (invoke : Invoke κ σ) (registry : RegistryId) (id : SubscriberId) :
    Engine κ σ Unit := do
  let present ← look (fun state => decide (id ∈ state.store.subscribers registry))
  let alive ← look (fun state => state.isAlive id)
  if present then
    if alive then notify invoke id
    else alter (State.changeStore (·.unregister registry id))
  else pure ()

def notifyAll (invoke : Invoke κ σ) (registry : RegistryId) : Engine κ σ Unit := do
  let snapshot ← look (fun state => state.store.subscribers registry)
  forEach (takeTurn invoke registry) snapshot

/-- Writes a value to a place and notifies the dependents. A value that goes to
a reactive slot is made reactive first. A field that is not there yet is added
and is not reactive; an element that is not there is an error. The value stays
when a dependent fails. -/
def write (invoke : Invoke κ σ) (place : Place) (value : Value) : Engine κ σ Unit := do
  let store ← look State.store
  match store.slot? place, place with
  | some ⟨_, some registry⟩, _ => do
      alter (State.changeStore (fun store =>
        (store.instrumentValue value).put place ⟨value, some registry⟩))
      notifyAll invoke registry
  | some ⟨_, none⟩, _ => alter (State.changeStore (·.put place (.plain value)))
  | none, .field _ _ => alter (State.changeStore (·.put place (.plain value)))
  | none, .item list index => fail (.indexOutOfRange index (store.items list).length)

/-- Creates a binding and hands its first value on. A binding whose first
evaluation or reaction fails is dropped. -/
def bindFormula (invoke : Invoke κ σ) (source : String) (formula : Formula)
    (context : Context κ) (reaction : Reaction κ) : Engine κ σ SubscriberId := do
  let binding : Binding κ := ⟨source, formula, context, reaction, [], none, none⟩
  let id ← transform (State.addSubscriber ⟨.binding binding, true, 0⟩)
  match ← attempt (whileRunning id (refresh invoke id binding)) with
  | .ok () => pure id
  | .error error => do
      alter (State.drop id)
      fail error

/-- Runs a binding that is alive, as its holder asks. -/
def reevaluate (invoke : Invoke κ σ) (id : SubscriberId) : Engine κ σ Unit := do
  let alive ← look (fun state => state.isAlive id)
  if alive then notify invoke id else pure ()

/-- The record that a path of field names leads to, from record to record. -/
def walk (store : Store) (path : List String) : RecordId → List String → Except Error RecordId
  | record, [] => .ok record
  | record, name :: rest =>
      match store.peek (.field record name) with
      | some (.record child) => walk store path child rest
      | some other => .error (.type (.assignmentThrough path other.typeName))
      | none => .error (.type (.assignmentThrough path "undefined"))

def assign (invoke : Invoke κ σ) (root : RecordId) (path : List String) (value : Value) :
    Engine κ σ Unit :=
  match path.getLast? with
  | none => pure ()
  | some field => do
      let store ← look State.store
      let record ← ofExcept (walk store path root path.dropLast)
      write invoke (.field record field) value

/-- Runs the method of an event directive. Its arguments are evaluated now and
never become dependencies. -/
def runHandler (invoke : Invoke κ σ) (context : Context κ) : Handler → Engine κ σ Unit
  | .unresolved source => fail (.unknownMethod source)
  | .method name arguments => do
      let values ← collect (fun argument => evaluateUntracked invoke context (.expression argument))
        arguments
      let _ ← callMethod invoke context name values
      pure ()

def runListener (invoke : Invoke κ σ) (event : String) (target : NodeId) :
    Listener κ → Engine κ σ Unit
  | .code body => do
      let _ ← invoke body (.dispatched event target)
      pure ()
  | .writeBack context property path => do
      let value ← look (fun state => state.document.property target property)
      assign invoke context.data path value
  | .handler context handler => runHandler invoke context handler

/-- Runs the listeners to an event of a node that are there when it begins, in
order, up to the first error. -/
def dispatch (invoke : Invoke κ σ) (target : NodeId) (event : String) : Engine κ σ Unit := do
  let listeners ← look (fun state => state.document.listenersFor target event)
  forEach (runListener invoke event target) listeners

def inputEvent : String := "input"

def valueProperty : String := "value"

def input (invoke : Invoke κ σ) (target : NodeId) (value : Value) : Engine κ σ Unit := do
  alter (State.changeDocument (·.setProperty target valueProperty value))
  dispatch invoke target inputEvent

end ReactiveView.Engine
