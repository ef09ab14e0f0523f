import ReactiveView.Data.Json
import ReactiveView.Reactive.Compilation

/-!
# Programs of callers

What callers can do, and callers' code as trees of it. Methods, reactions,
subscribers and listeners are given by descriptions; `code` says which program
a description stands for on which occasion. Running a description gives its
program the same operations again, one level deeper, so every way in which
callers' code can re-enter is a run of these definitions.
-/

namespace ReactiveView

set_option autoImplicit false

/-- An operation of callers that changes the state or may run code, with the
type of its result. -/
inductive Command (κ : Type) : Type → Type where
  | newRecord (fields : List (String × Value)) : Command κ RecordId
  | newList (items : List Value) : Command κ ListId
  | ingest (json : Json) : Command κ Value
  | read (place : Place) : Command κ (Option Value)
  | write (place : Place) (value : Value) : Command κ Unit
  | push (list : ListId) (value : Value) : Command κ Unit
  | instrument (record : RecordId) : Command κ Unit
  | instrumentField (record : RecordId) (key : String) : Command κ Bool
  | newRegistry : Command κ RegistryId
  | register (registry : RegistryId) (subscriber : SubscriberId) : Command κ Bool
  | unregister (registry : RegistryId) (subscriber : SubscriberId) : Command κ Bool
  | notifyAll (registry : RegistryId) : Command κ Unit
  | newSubscriber (body : κ) : Command κ SubscriberId
  | drop (subscriber : SubscriberId) : Command κ Unit
  | callMethod (context : Context κ) (name : String) (arguments : List Value) :
      Command κ Value
  | evaluate (context : Context κ) (formula : Formula) : Command κ Value
  | evaluateUntracked (context : Context κ) (formula : Formula) : Command κ Value
  | parseTemplate (text : String) : Command κ (Option Template)
  | bind (source : String) (formula : Formula) (context : Context κ) (body : κ) :
      Command κ SubscriberId
  | reevaluate (binding : SubscriberId) : Command κ Unit
  | createNode (kind : NodeKind) : Command κ NodeId
  | append (parent child : NodeId) : Command κ Unit
  | setAttribute (node : NodeId) (name value : String) : Command κ Unit
  | removeAttribute (node : NodeId) (name : String) : Command κ Unit
  | setProperty (node : NodeId) (name : String) (value : Value) : Command κ Unit
  | setTextContent (node : NodeId) (text : String) : Command κ Unit
  | listen (node : NodeId) (event : String) (body : κ) : Command κ Unit
  | dispatch (node : NodeId) (event : String) : Command κ Unit
  | input (node : NodeId) (value : Value) : Command κ Unit
  | compile (context : Context κ) (root : NodeId) : Command κ (List SubscriberId)
  | mount (selector : String) (data : RecordId) (methods : Dictionary κ) :
      Command κ (View κ)

namespace Command

variable {κ σ : Type}

open Engine

def onStore {α : Type} (change : Store → α × Store) : Engine κ σ α :=
  transform (fun state =>
    let (result, store) := change state.store
    (result, { state with store }))

def onDocument (change : Document (Listener κ) → Document (Listener κ)) : Engine κ σ Unit :=
  alter (State.changeDocument change)

/-- Carries out a command. Compilation goes at most `depth` levels deep. -/
def perform (invoke : Invoke κ σ) (depth : Nat) {α : Type} : Command κ α → Engine κ σ α
  | .newRecord fields => onStore (·.newRecord fields)
  | .newList items => onStore (·.newList items)
  | .ingest json => onStore (·.ingest json)
  | .read place => transform (State.read place)
  | .write place value => Engine.write invoke place value
  | .push list value => alter (State.changeStore (·.push list value))
  | .instrument record => alter (State.changeStore (·.instrument record))
  | .instrumentField record key =>
      onStore (fun store =>
        ((store.peek (.field record key)).isSome, store.instrumentField record key))
  | .newRegistry => onStore Store.newRegistry
  | .register registry subscriber =>
      onStore (fun store =>
        (decide (subscriber ∉ store.subscribers registry), store.register registry subscriber))
  | .unregister registry subscriber =>
      onStore (fun store =>
        (decide (subscriber ∈ store.subscribers registry),
          store.unregister registry subscriber))
  | .notifyAll registry => Engine.notifyAll invoke registry
  | .newSubscriber body => transform (State.addSubscriber ⟨.code body, true, 0⟩)
  | .drop subscriber => alter (State.drop subscriber)
  | .callMethod context name arguments => Engine.callMethod invoke context name arguments
  | .evaluate context formula => evaluateFormula invoke context formula
  | .evaluateUntracked context formula => Engine.evaluateUntracked invoke context formula
  | .parseTemplate text => Engine.parseTemplate text
  | .bind source formula context body => bindFormula invoke source formula context (.code body)
  | .reevaluate binding => Engine.reevaluate invoke binding
  | .createNode kind =>
      transform (fun state =>
        let (node, document) := state.document.create kind
        (node, { state with document }))
  | .append parent child => onDocument (·.append parent child)
  | .setAttribute node name value => onDocument (·.setAttribute node name value)
  | .removeAttribute node name => onDocument (·.removeAttribute node name)
  | .setProperty node name value => onDocument (·.setProperty node name value)
  | .setTextContent node text => onDocument (·.setTextContent node text)
  | .listen node event body => onDocument (·.listen node event (.code body))
  | .dispatch node event => Engine.dispatch invoke node event
  | .input node value => Engine.input invoke node value
  | .compile context root => compileBelow invoke context depth root
  | .mount selector data methods => mountView invoke depth selector data methods

end Command

/-- A program of a caller: commands one after the other, with any reading of the
state in between and any change to what the caller keeps for itself. -/
inductive Program (κ σ α : Type) : Type 1 where
  | done (outcome : Except Error α)
  | stop
  | inspect (next : State κ σ → Program κ σ α)
  | record (change : σ → σ) (next : Program κ σ α)
  | perform {β : Type} (command : Command κ β) (next : Except Error β → Program κ σ α)

namespace Program

variable {κ σ α β : Type}

def andThen (first : Program κ σ α) (second : α → Program κ σ β) : Program κ σ β :=
  match first with
  | done (.ok value) => second value
  | done (.error error) => done (.error error)
  | stop => stop
  | inspect next => inspect (fun state => (next state).andThen second)
  | record change next => record change (next.andThen second)
  | perform command next => perform command (fun outcome => (next outcome).andThen second)

instance : Monad (Program κ σ) where
  pure value := done (.ok value)
  bind := andThen

def fail (error : Error) : Program κ σ α := done (.error error)

def run (command : Command κ α) : Program κ σ α := perform command done

def look (view : State κ σ → α) : Program κ σ α :=
  inspect (fun state => done (.ok (view state)))

def keep (change : σ → σ) : Program κ σ Unit := record change (done (.ok ()))

def attempt (body : Program κ σ α) : Program κ σ (Except Error α) :=
  match body with
  | done outcome => done (.ok outcome)
  | stop => stop
  | inspect next => inspect (fun state => (next state).attempt)
  | record change next => record change next.attempt
  | perform command next => perform command (fun outcome => (next outcome).attempt)

def execute (invoke : Invoke κ σ) (depth : Nat) (program : Program κ σ α) : Engine κ σ α :=
  match program with
  | done outcome => Engine.ofExcept outcome
  | stop => fun state => .stopped state
  | inspect next => fun state => (next state).execute invoke depth state
  | record change next => fun state =>
      next.execute invoke depth { state with host := change state.host }
  | perform command next => fun state =>
      match command.perform invoke depth state with
      | .ended outcome state => (next outcome).execute invoke depth state
      | .stopped state => .stopped state

/-- Runs descriptions of code, nested at most `depth` deep. -/
def invoke (code : κ → Occasion κ → Program κ σ Value) : Nat → Invoke κ σ
  | 0 => fun _ _ state => .stopped state
  | depth + 1 => fun body occasion =>
      (code body occasion).execute (invoke code depth) depth

end Program

end ReactiveView
