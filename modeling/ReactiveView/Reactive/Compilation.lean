import ReactiveView.Directive
import ReactiveView.Document.Content
import ReactiveView.Document.Query
import ReactiveView.Reactive.Notification

/-!
# Compilation

A walk over a subtree in document order that turns directives and templates
into bindings and listeners. Each element first gets its attributes compiled,
in order, and then its children, unless a directive owns its text. A directive
that has been compiled is removed from its element. The first failure ends the
walk and drops the bindings made so far; listeners stay.
-/

namespace ReactiveView

set_option autoImplicit false

namespace Handler

def parse (source : String) : Handler :=
  match Expression.parse? source with
  | some (.identifier name) => .method name []
  | some (.call (.identifier name) arguments) => .method name arguments
  | _ => .unresolved source

end Handler

/-- A mounted view: the element it is mounted on, its context, and its
bindings. -/
structure View (κ : Type) where
  mount : NodeId
  context : Context κ
  bindings : List SubscriberId

namespace Directive

def ownsText : Directive → Bool
  | text _ => true
  | _ => false

end Directive

namespace Engine

variable {κ σ : Type}

/-- The expression that a directive value spells. A value that does not parse is
taken as a text. -/
def parseOrLiteral (source : String) : Engine κ σ Expression :=
  match Expression.parse? source with
  | some expression => pure expression
  | none => do
      alter (State.warn (.takenLiterally source))
      pure (.literal (.text source))

def dropAll (ids : List SubscriberId) : Engine κ σ Unit :=
  alter (fun state => ids.foldl (fun state id => state.drop id) state)

/-- The bindings made by two steps, one after the other. A failure of the second
one drops those of the first. -/
def makeBoth (first second : Engine κ σ (List SubscriberId)) :
    Engine κ σ (List SubscriberId) := do
  let made ← first
  match ← attempt second with
  | .ok others => pure (made ++ others)
  | .error error => do
      dropAll made
      fail error

def makeEach {α : Type} (make : α → Engine κ σ (List SubscriberId)) :
    List α → Engine κ σ (List SubscriberId)
  | [] => pure []
  | first :: rest => makeBoth (make first) (makeEach make rest)

def parseTemplate (text : String) : Engine κ σ (Option Template) := do
  alter (fun state =>
    (Template.warnings text).foldl (fun state warning => state.warn warning) state)
  pure (Template.parse? text)

def compileText (invoke : Invoke κ σ) (context : Context κ) (node : NodeId) :
    Engine κ σ (List SubscriberId) := do
  let text ← look (fun state => state.document.textContent node)
  match ← parseTemplate text with
  | none => pure []
  | some template => do
      let id ← bindFormula invoke text (.template template) context (.renderedText node)
      pure [id]

/-- Compiles a two-way binding. One whose expression is no field path is bound
one way. -/
def compileModel (invoke : Invoke κ σ) (context : Context κ) (node : NodeId)
    (property source : String) : Engine κ σ (List SubscriberId) := do
  let expression ← parseOrLiteral source
  let id ← bindFormula invoke source (.expression expression) context (.property node property)
  match expression.path? with
  | none => alter (State.warn (.notAPath source node))
  | some path =>
      alter (State.changeDocument
        (·.listen node inputEvent (.writeBack context property path)))
  pure [id]

def compileEvent (context : Context κ) (node : NodeId) (event source : String) :
    Engine κ σ (List SubscriberId) := do
  let handler := Handler.parse source
  match handler with
  | .unresolved _ => alter (State.warn (.notAMethod source event node))
  | .method _ _ => pure ()
  alter (State.changeDocument (·.listen node event (.handler context handler)))
  pure []

def compileDirective (invoke : Invoke κ σ) (context : Context κ) (node : NodeId) :
    Directive → Engine κ σ (List SubscriberId)
  | .text source => do
      let expression ← parseOrLiteral source
      let id ← bindFormula invoke source (.expression expression) context (.textContent node)
      pure [id]
  | .bind property source => do
      let expression ← parseOrLiteral source
      let id ← bindFormula invoke source (.expression expression) context
        (.property node (property.getD valueProperty))
      pure [id]
  | .model property source =>
      compileModel invoke context node (property.getD valueProperty) source
  | .event name source => compileEvent context node name source

def compileAttribute (invoke : Invoke κ σ) (context : Context κ) (node : NodeId)
    (entry : String × String) : Engine κ σ (List SubscriberId) := do
  match Directive.parse? entry.1 entry.2 with
  | some directive => do
      let made ← compileDirective invoke context node directive
      alter (State.changeDocument (·.removeAttribute node entry.1))
      pure made
  | none => do
      if Directive.isLongForm entry.1 then alter (State.warn (.unknownDirective entry.1 node))
      pure []

def ownsText (entries : List (String × String)) : Bool :=
  entries.any (fun entry => (Directive.parse? entry.1 entry.2).any Directive.ownsText)

/-- Compiles all that is below a node, at most `depth` levels deep. -/
def compileBelow (invoke : Invoke κ σ) (context : Context κ) :
    Nat → NodeId → Engine κ σ (List SubscriberId)
  | 0, _ => fun state => .stopped state
  | depth + 1, parent => do
      let children ← look (fun state => state.document.children parent)
      makeEach (fun child => do
        let node ← look (fun state => state.document.node child)
        match node.kind with
        | .comment _ => pure []
        | .text _ => compileText invoke context child
        | .element _ =>
            let entries := node.attributes.entries
            makeBoth (makeEach (compileAttribute invoke context child) entries)
              (if ownsText entries then pure [] else compileBelow invoke context depth child))
        children

/-- Mounts a view on the first element that a selector admits: makes the data
reactive and compiles what is below the element. -/
def mountView (invoke : Invoke κ σ) (depth : Nat) (selector : String) (data : RecordId)
    (methods : Dictionary κ) : Engine κ σ (View κ) := do
  match ← look (fun state => state.document.query selector) with
  | none => fail (.mountNotFound selector)
  | some mount => do
      alter (State.changeStore (·.instrument data))
      let context : Context κ := ⟨data, methods⟩
      let bindings ← compileBelow invoke context depth mount
      pure ⟨mount, context, bindings⟩

end Engine

end ReactiveView
