import ReactiveView.Proofs.Corresponding

/-!
# Compilations, commands and programs, gone through once

What corresponds, corresponds in compilations as well, in all commands and in all programs.
-/

namespace ReactiveView

set_option autoImplicit false

open Engine

namespace Engine

variable {κ σ α : Type} {relation : Correspondence κ σ} {state : State κ σ}

theorem leads_warn (warning : Warning) (state : State κ σ) :
    relation.leads state (state.warn warning) :=
  relation.keeps (.noted _ _)

theorem leads_edit (edit : Document.Edit (Listener κ)) (state : State κ σ)
    (plain : edit.setting? = none) :
    relation.leads state (state.changeDocument (fun document => edit.make document)) := by
  apply relation.edits
  intro setting sets
  rw [plain] at sets
  cases sets

theorem corresponds_parseOrLiteral (source : String) (state : State κ σ) :
    relation.holds (parseOrLiteral source) (parseOrLiteral source) state := by
  unfold parseOrLiteral
  split
  · exact corresponds_pure _
  · apply corresponds_after_alter (leads_warn _ state)
    exact corresponds_pure _

theorem corresponds_dropAll (ids : List SubscriberId) (state : State κ σ) :
    relation.holds (dropAll ids) (dropAll ids) state := by
  apply corresponds_alter
  induction ids generalizing state with
  | nil => exact relation.refl state
  | cons id rest induction =>
      exact relation.trans (relation.keeps (.dropped id)) (induction (state.drop id))

theorem corresponds_makeBoth {first first' second second' : Engine κ σ (List SubscriberId)}
    (here : relation.holds first first' state)
    (next : ∀ state, relation.holds second second' state) :
    relation.holds (makeBoth first second) (makeBoth first' second') state := by
  apply relation.binds here
  intro made between _
  apply relation.binds (relation.attempts (next between))
  intro outcome between' _
  cases outcome with
  | ok others => exact corresponds_pure _
  | error error =>
      apply relation.binds (corresponds_dropAll made between')
      intro _ final _
      exact relation.fails error final

theorem corresponds_makeEach {make make' : α → Engine κ σ (List SubscriberId)}
    (each : ∀ value state, relation.holds (make value) (make' value) state) (values : List α)
    (state : State κ σ) :
    relation.holds (makeEach make values) (makeEach make' values) state := by
  induction values generalizing state with
  | nil => exact corresponds_pure []
  | cons first rest induction => exact corresponds_makeBoth (each first state) induction

theorem corresponds_parseTemplate (text : String) (state : State κ σ) :
    relation.holds (parseTemplate text) (parseTemplate text) state := by
  have warned : relation.leads state
      ((Template.warnings text).foldl (fun state warning => state.warn warning) state) := by
    induction Template.warnings text generalizing state with
    | nil => exact relation.refl state
    | cons warning rest induction =>
        exact relation.trans (leads_warn warning state) (induction (state.warn warning))
  apply corresponds_after_alter warned
  exact corresponds_pure _

theorem corresponds_compileEvent (context : Context κ) (node : NodeId) (event source : String)
    (state : State κ σ) :
    relation.holds (compileEvent context node event source)
      (compileEvent context node event source) state := by
  unfold compileEvent
  cases Handler.parse source with
  | unresolved other =>
      apply corresponds_after_alter (leads_warn _ state)
      apply corresponds_after_alter (leads_edit (.listen node event _) _ rfl)
      exact corresponds_pure []
  | method name arguments =>
      apply relation.binds (corresponds_pure ())
      intro _ between _
      apply corresponds_after_alter (leads_edit (.listen node event _) between rfl)
      exact corresponds_pure []

section

variable {invoke invoke' : Invoke κ σ} (joins : relation.Joins invoke invoke')
include joins

theorem corresponds_compileText (context : Context κ) (node : NodeId) (state : State κ σ) :
    relation.holds (compileText invoke context node) (compileText invoke' context node)
      state := by
  apply corresponds_after_look
  apply relation.binds (corresponds_parseTemplate _ state)
  intro template between _
  cases template with
  | none => exact corresponds_pure []
  | some template =>
      apply relation.binds (corresponds_bindFormula joins _ _ context _ between)
      intro id between' _
      exact corresponds_pure _

theorem corresponds_compileModel (context : Context κ) (node : NodeId)
    (property source : String) (state : State κ σ) :
    relation.holds (compileModel invoke context node property source)
      (compileModel invoke' context node property source) state := by
  apply relation.binds (corresponds_parseOrLiteral source state)
  intro expression between _
  apply relation.binds (corresponds_bindFormula joins source _ context _ between)
  intro id between' _
  cases expression.path? with
  | none =>
      apply corresponds_after_alter (leads_warn _ between')
      exact corresponds_pure _
  | some path =>
      apply corresponds_after_alter (leads_edit (.listen node inputEvent _) between' rfl)
      exact corresponds_pure _

theorem corresponds_compileDirective (context : Context κ) (node : NodeId)
    (directive : Directive) (state : State κ σ) :
    relation.holds (compileDirective invoke context node directive)
      (compileDirective invoke' context node directive) state := by
  have bound (source : String) (reaction : Reaction κ) :
      relation.holds
        (parseOrLiteral source >>= fun expression =>
          bindFormula invoke source (.expression expression) context reaction >>= fun id =>
            pure [id])
        (parseOrLiteral source >>= fun expression =>
          bindFormula invoke' source (.expression expression) context reaction >>= fun id =>
            pure [id]) state := by
    apply relation.binds (corresponds_parseOrLiteral source state)
    intro expression between _
    apply relation.binds (corresponds_bindFormula joins source _ context _ between)
    intro id between' _
    exact corresponds_pure _
  cases directive with
  | text source => exact bound source _
  | bind property source => exact bound source _
  | model property source => exact corresponds_compileModel joins context node _ source state
  | event name source => exact corresponds_compileEvent context node name source state

theorem corresponds_compileAttribute (context : Context κ) (node : NodeId)
    (entry : String × String) (state : State κ σ) :
    relation.holds (compileAttribute invoke context node entry)
      (compileAttribute invoke' context node entry) state := by
  unfold compileAttribute
  split
  · apply relation.binds (corresponds_compileDirective joins context node _ state)
    intro made between _
    apply corresponds_after_alter (leads_edit (.removeAttribute node entry.1) between rfl)
    exact corresponds_pure made
  · split
    · apply corresponds_after_alter (leads_warn _ state)
      exact corresponds_pure []
    · exact corresponds_pure []

theorem corresponds_compileBelow (context : Context κ) (depth : Nat) (parent : NodeId)
    (state : State κ σ) :
    relation.holds (compileBelow invoke context depth parent)
      (compileBelow invoke' context depth parent) state := by
  induction depth generalizing parent state with
  | zero => exact relation.stops state
  | succ depth induction =>
      apply corresponds_after_look
      apply corresponds_makeEach
      intro child state
      apply corresponds_after_look
      split
      · exact corresponds_pure []
      · exact corresponds_compileText joins context child state
      · apply corresponds_makeBoth
        · exact corresponds_makeEach (corresponds_compileAttribute joins context child) _ state
        · intro state
          split
          · exact corresponds_pure []
          · exact induction child state

theorem corresponds_mountView (free : relation.Free) (depth : Nat) (selector : String)
    (data : RecordId) (methods : Dictionary κ) (state : State κ σ) :
    relation.holds (mountView invoke depth selector data methods)
      (mountView invoke' depth selector data methods) state := by
  apply corresponds_after_look
  split
  · exact relation.fails _ state
  · have instruments := Store.instruments_instrumentFrom state.store [.record data]
    apply corresponds_after_alter (free state _ instruments.subscribers instruments.ranged)
    apply relation.binds (corresponds_compileBelow joins _ depth _ _)
    intro bindings between _
    exact corresponds_pure _

end

end Engine

namespace Command

variable {κ σ α : Type} {relation : Correspondence κ σ} {state : State κ σ}

/-- The text or the property that a command sets by itself. -/
def setting? : Command κ α → Option Document.Setting
  | setProperty node name value => some (.property node name value)
  | setTextContent node text => some (.text node text)
  | input node value => some (.property node valueProperty value)
  | _ => none

def Asks (asks : Document.Setting → Prop) (command : Command κ α) : Prop :=
  ∀ setting, command.setting? = some setting → asks setting

/-- Commands that leave the data to others: they make no containers and write to none, nor
do they hand control to a document that has listeners. -/
def keepsData : Command κ α → Bool
  | newRecord _ | newList _ | ingest _ | write _ _ | push _ _ => false
  | instrument _ | instrumentField _ _ | newRegistry => false
  | dispatch _ _ | input _ _ | mount _ _ _ => false
  | _ => true

theorem corresponds_onStore (free : relation.Free) (change : Store → α × Store)
    (same : ∀ registry, (change state.store).2.subscribers registry =
      state.store.subscribers registry)
    (ranged : state.store.Ranged → (change state.store).2.Ranged) :
    relation.holds (onStore change) (onStore change) state :=
  relation.changes (fun state => ((change state.store).1,
    { state with store := (change state.store).2 })) (free state _ same ranged)

section

variable {invoke invoke' : Invoke κ σ} (joins : relation.Joins invoke invoke')
include joins

theorem corresponds_perform_of_keepsData (depth : Nat) {command : Command κ α}
    (keeps : command.keepsData = true) (asked : command.Asks relation.asks) (state : State κ σ) :
    relation.holds (command.perform invoke depth) (command.perform invoke' depth) state := by
  have edited (edit : Document.Edit (Listener κ))
      (asked : ∀ setting, edit.setting? = some setting → relation.asks setting) :
      relation.holds (onDocument (fun document => edit.make document))
        (onDocument (fun document => edit.make document)) state :=
    corresponds_alter (relation.edits edit state asked)
  cases command with
  | read place => exact relation.reads place state
  | register registry subscriber =>
      exact relation.changes _ (relation.keeps (.joined registry subscriber))
  | unregister registry subscriber =>
      exact relation.changes _ (relation.keeps (.left registry subscriber))
  | notifyAll registry => exact corresponds_notifyAll joins registry state
  | newSubscriber body => exact relation.changes _ (relation.keeps (.added _))
  | drop subscriber => exact corresponds_alter (relation.keeps (.dropped subscriber))
  | callMethod context name arguments =>
      exact corresponds_callMethod joins context name arguments state
  | evaluate context formula => exact corresponds_evaluateFormula joins context formula state
  | evaluateUntracked context formula =>
      exact corresponds_evaluateUntracked joins context formula state
  | parseTemplate text => exact corresponds_parseTemplate text state
  | bind source formula context body =>
      exact corresponds_bindFormula joins source formula context _ state
  | reevaluate binding => exact corresponds_reevaluate joins binding state
  | createNode kind => exact relation.changes _ (leads_edit (.create kind) state rfl)
  | append parent child => exact edited (.append parent child) nofun
  | setAttribute node name value => exact edited (.setAttribute node name value) nofun
  | removeAttribute node name => exact edited (.removeAttribute node name) nofun
  | setProperty node name value => exact edited (.setProperty node name value) asked
  | setTextContent node text => exact edited (.setTextContent node text) asked
  | listen node event body => exact edited (.listen node event _) nofun
  | compile context root => exact corresponds_compileBelow joins context depth root state
  | _ => cases keeps

theorem corresponds_perform (free : relation.Free) (depth : Nat) {command : Command κ α}
    (asked : command.Asks relation.asks) (state : State κ σ) :
    relation.holds (command.perform invoke depth) (command.perform invoke' depth) state := by
  cases command with
  | newRecord fields =>
      exact corresponds_onStore free (·.newRecord fields) (fun _ => rfl)
        (fun ranged => Store.ranged_newRecord ranged fields)
  | newList items =>
      exact corresponds_onStore free (·.newList items) (fun _ => rfl)
        (fun ranged => Store.ranged_newList ranged items)
  | ingest json =>
      have same := Store.registries_ingest state.store json
      exact corresponds_onStore free (·.ingest json)
        (fun registry => by simp only [Store.subscribers, same])
        (fun ranged => Store.ranged_ingest ranged json)
  | write place value => exact corresponds_write joins free place value state
  | push list value =>
      exact corresponds_alter
        (free state _ (fun _ => rfl) (fun ranged => Store.ranged_push ranged list value))
  | instrument record =>
      have instruments := Store.instruments_instrumentFrom state.store [.record record]
      exact corresponds_alter (free state _ instruments.subscribers instruments.ranged)
  | instrumentField record key =>
      have instruments := Store.instruments_instrumentField state.store record key
      exact corresponds_onStore free
        (fun store => ((store.peek (.field record key)).isSome, store.instrumentField record key))
        instruments.subscribers instruments.ranged
  | newRegistry =>
      exact corresponds_onStore free Store.newRegistry (Store.subscribers_newRegistry _)
        Store.ranged_newRegistry
  | dispatch node event => exact corresponds_dispatch joins free node event state
  | input node value =>
      apply corresponds_after_alter (relation.edits (.setProperty node valueProperty value) _ asked)
      exact corresponds_dispatch joins free node inputEvent _
  | mount selector data methods =>
      exact corresponds_mountView joins free depth selector data methods state
  | _ => exact corresponds_perform_of_keepsData joins depth rfl asked state

end

end Command

namespace Program

variable {κ σ α : Type} {relation : Correspondence κ σ}

theorem execute_perform {β : Type} (invoke : Invoke κ σ) (depth : Nat) (command : Command κ β)
    (next : Except Error β → Program κ σ α) :
    (perform command next).execute invoke depth =
      (Engine.attempt (command.perform invoke depth) >>= fun outcome =>
        (next outcome).execute invoke depth) := by
  funext state
  simp only [execute, Engine.attempt, Bind.bind, Engine.bind]
  cases command.perform invoke depth state <;> rfl

theorem corresponds_execute {invoke invoke' : Invoke κ σ} (joins : relation.Joins invoke invoke')
    (free : relation.Free) (depth : Nat) {program : Program κ σ α}
    (uses : program.Uses (Command.Asks relation.asks)) (state : State κ σ) :
    relation.holds (program.execute invoke depth) (program.execute invoke' depth) state := by
  induction program generalizing state with
  | done outcome => exact corresponds_ofExcept outcome
  | stop => exact relation.stops state
  | inspect next induction =>
      change relation.holds (Engine.look id >>= fun seen => (next seen).execute invoke depth)
        (Engine.look id >>= fun seen => (next seen).execute invoke' depth) state
      exact corresponds_after_look (induction state (uses state) state)
  | record change next induction =>
      let change : State κ σ → State κ σ := fun state =>
        { state with host := change state.host }
      change relation.holds (alter change >>= fun _ => next.execute invoke depth)
        (alter change >>= fun _ => next.execute invoke' depth) state
      exact corresponds_after_alter (relation.keeps (.noted _ _)) (induction uses _)
  | perform command next induction =>
      rw [execute_perform, execute_perform]
      have performs := Command.corresponds_perform joins free depth uses.1 state
      apply relation.binds (relation.attempts performs)
      intro outcome between _
      exact induction outcome (uses.2 outcome) between

theorem joins_invoke (free : relation.Free) {code : κ → Occasion κ → Program κ σ Value}
    (uses : ∀ body occasion, (code body occasion).Uses (Command.Asks relation.asks))
    (depth : Nat) : relation.Joins (invoke code depth) (invoke code depth) := by
  induction depth with
  | zero => exact fun _ _ state _ => relation.stops state
  | succ depth induction =>
      exact fun body occasion state _ =>
        corresponds_execute induction free depth (uses body occasion) state

theorem asks_anything (program : Program κ σ α) :
    program.Uses (Command.Asks (fun _ => True)) := by
  induction program with
  | done outcome => trivial
  | stop => trivial
  | inspect next induction => exact induction
  | record change next induction => exact induction
  | perform command next induction => exact ⟨fun _ _ => trivial, induction⟩

end Program

end ReactiveView
