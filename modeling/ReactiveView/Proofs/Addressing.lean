import ReactiveView.Proofs.Recording

/-!
# Which node a binding sets

A binding keeps the place of the node that it was compiled on. Whatever a run does, the
binding sets nothing on another place. The place holds the same node as long as no text
has replaced what the node was part of; a text of another view can do that, and the place
is then given to a new node, which the binding goes on to set.
-/

namespace ReactiveView

set_option autoImplicit false

open Engine Document

variable {κ σ : Type} {asks : Setting → Prop}

theorem Reaction.spot?_of_setting? {store : Store} {value : Value} {reaction : Reaction κ}
    {setting : Setting} (sets : reaction.setting? store value = some setting) :
    reaction.spot? = some setting.spot := by
  cases reaction with
  | code body => cases sets
  | textContent node => cases sets; rfl
  | renderedText node => cases sets; rfl
  | property node name => cases sets; rfl

def Event.document (history : List (Event κ)) : Document (Listener κ) :=
  Document.initial.after (edits history)

namespace State

variable {start state : State κ σ} {history : List (Event κ)} {id : SubscriberId}

namespace Recorded

theorem document (recorded : start.Recorded asks history state) :
    state.document = start.document.after (Event.edits history) := by
  induction recorded with
  | start => rfl
  | aside _ aside induction => rw [aside.document, induction]
  | occurs _ occurs induction =>
      rw [Event.edits_append, after_append, ← induction]
      cases occurs with
      | edited edit asked => rfl
      | bound binding => rfl
      | set found handed sets => exact (make_edit _ _).symm

theorem asked (recorded : start.Recorded asks history state) {edit : Edit (Listener κ)}
    {setting : Setting} (member : .edited edit ∈ history) (sets : edit.setting? = some setting) :
    asks setting := by
  induction recorded with
  | start => cases member
  | aside _ _ induction => exact induction member
  | occurs _ occurs induction =>
      rcases List.mem_append.mp member with before | last
      · exact induction before
      · cases List.mem_singleton.mp last
        cases occurs with
        | edited edit asked => exact asked setting sets

theorem bound_iff (recorded : start.Recorded asks history state)
    (none : ∀ id, start.blueprint? id = none) {reaction : Reaction κ} :
    .bound id reaction ∈ history ↔
      ∃ blueprint, state.blueprint? id = some blueprint ∧ blueprint.reaction = reaction := by
  induction recorded with
  | start => simp [none]
  | aside _ aside induction => rw [induction, aside.blueprints]
  | @occurs history event before later _ occurs induction =>
      rw [List.mem_append, List.mem_singleton, induction]
      cases occurs with
      | edited edit asked => exact or_iff_left nofun
      | set found handed sets => exact or_iff_left nofun
      | bound binding =>
          by_cases new : id = ⟨before.subscribers.size⟩
          · have added := blueprint?_of_binding? (before.binding?_addSubscriber binding)
            rw [new, blueprint?_size, added]
            simp [Binding.blueprint, eq_comm]
          · rw [blueprint?_addSubscriber_of_ne before _ new]
            refine or_iff_left (fun same => new ?_)
            cases same
            rfl

theorem bound_of_set (recorded : start.Recorded asks history state)
    (none : ∀ id, start.blueprint? id = none) {front : List (Event κ)} {setting : Setting}
    (set : front ++ [.set id setting] <+: history) :
    ∃ reaction, .bound id reaction ∈ front ∧ reaction.spot? = some setting.spot := by
  induction recorded with
  | start => simp at set
  | aside _ _ induction => exact induction set
  | occurs recorded occurs induction =>
      rcases List.prefix_concat_iff.mp set with last | before
      · obtain ⟨rfl, same⟩ := List.append_inj' last rfl
        cases same
        cases occurs with
        | set found handed sets =>
            refine ⟨_, (recorded.bound_iff none).mpr ⟨_, blueprint?_of_binding? found, rfl⟩, ?_⟩
            exact Reaction.spot?_of_setting? sets
      · exact induction before

end Recorded

/-- A history of a run from the beginning. Callers' code has set only what it may ask for,
and the bindings of the history are those of the state. -/
structure History (asks : Setting → Prop) (state : State κ σ) (history : List (Event κ)) :
    Prop where
  document : state.document = Event.document history
  asked : ∀ edit setting, .edited edit ∈ history → edit.setting? = some setting → asks setting
  bound : ∀ id reaction, .bound id reaction ∈ history ↔
    ∃ binding, state.binding? id = some binding ∧ binding.reaction = reaction

theorem blueprint?_initial (host : σ) (id : SubscriberId) :
    (State.initial host : State κ σ).blueprint? id = none := by
  simp [blueprint?, binding?, subscriber?, initial]

theorem Recorded.told {host : σ} (recorded : (State.initial host).Recorded asks history state) :
    state.History asks history where
  document := recorded.document
  asked := fun _ _ => recorded.asked
  bound := by
    intro id reaction
    rw [recorded.bound_iff (blueprint?_initial host)]
    simp only [blueprint?, Option.map_eq_some_iff]
    constructor
    · rintro ⟨blueprint, ⟨binding, found, rfl⟩, same⟩
      exact ⟨binding, found, same⟩
    · rintro ⟨binding, found, same⟩
      exact ⟨binding.blueprint, ⟨binding, found, rfl⟩, same⟩

end State

namespace Engine

variable {invoke : Invoke κ σ} {state later : State κ σ} {context : Context κ} {node : NodeId}
  {id : SubscriberId} {ids : List SubscriberId}

section

variable (joins : (Trail.recording κ σ asks).correspondence.Joins invoke invoke)
include joins

theorem spot?_of_bindFormula {source : String} {formula : Formula} {reaction : Reaction κ}
    (ended : bindFormula invoke source formula context reaction state = .ended (.ok id) later) :
    later.spot? id = reaction.spot? := by
  let binding : Binding κ := ⟨source, formula, context, reaction, [], none, none⟩
  obtain ⟨new, added, start, ended⟩ := ok_of_bind ended
  cases start
  obtain ⟨outcome, between, ran, ended⟩ := ok_of_bind ended
  have leads : State.Leads asks _ between :=
    Trail.Passes.leads (corresponds_launch joins binding state) ran
  cases outcome with
  | error error => cases ended
  | ok _ =>
      cases ended
      have found := state.binding?_addSubscriber binding
      have planned := leads.blueprint? (State.blueprint?_of_binding? found)
      change (later.blueprint? ⟨state.subscribers.size⟩).bind _ = _
      rw [planned]
      rfl

theorem spot?_of_bound {source : String} {reaction : Reaction κ}
    (ended : (do
      let expression ← parseOrLiteral source
      let id ← bindFormula invoke source (.expression expression) context reaction
      pure [id]) state = .ended (.ok ids) later) :
    ∀ id ∈ ids, later.spot? id = reaction.spot? := by
  obtain ⟨expression, between, -, ended⟩ := ok_of_bind ended
  obtain ⟨id, last, made, ended⟩ := ok_of_bind ended
  cases ended
  intro other member
  rw [List.mem_singleton.mp member]
  exact spot?_of_bindFormula joins made

theorem spot?_of_compileModel {property source : String}
    (ended : compileModel invoke context node property source state = .ended (.ok ids) later) :
    ∀ id ∈ ids, later.spot? id = some (.property node property) := by
  obtain ⟨expression, between, -, ended⟩ := ok_of_bind ended
  obtain ⟨id, last, made, ended⟩ := ok_of_bind ended
  have same : later.subscribers = last.subscribers ∧ ids = [id] := by
    split at ended
    · cases ended
      exact ⟨rfl, rfl⟩
    · cases ended
      exact ⟨rfl, rfl⟩
  have aside : later.spot? id = last.spot? id := by
    simp only [State.spot?, State.blueprint?, State.binding?, State.subscriber?, same.1]
  rw [same.2]
  intro other member
  rw [List.mem_singleton.mp member, aside]
  exact spot?_of_bindFormula joins made

theorem spot?_of_compileText
    (ended : compileText invoke context node state = .ended (.ok ids) later) :
    ∀ id ∈ ids, later.spot? id = some (.text node) := by
  obtain ⟨text, between, -, ended⟩ := ok_of_bind ended
  obtain ⟨template, between', -, ended⟩ := ok_of_bind ended
  cases template with
  | none =>
      cases ended
      exact fun _ member => absurd member List.not_mem_nil
  | some template =>
      obtain ⟨id, last, made, ended⟩ := ok_of_bind ended
      cases ended
      intro other member
      rw [List.mem_singleton.mp member]
      exact spot?_of_bindFormula joins made

omit joins in
theorem none_of_compileEvent {event source : String}
    (ended : compileEvent context node event source state = .ended (.ok ids) later) : ids = [] := by
  unfold compileEvent at ended
  cases parsed : Handler.parse source <;> rw [parsed] at ended <;> cases ended <;> rfl

/-- A binding of a directive sets something of the element that has the directive. -/
theorem spot?_of_compileDirective {directive : Directive}
    (ended : compileDirective invoke context node directive state = .ended (.ok ids) later) :
    ∀ id ∈ ids, ∃ spot, later.spot? id = some spot ∧ spot.node = node := by
  cases directive with
  | text source => exact fun id member => ⟨_, spot?_of_bound joins ended id member, rfl⟩
  | bind property source =>
      exact fun id member => ⟨_, spot?_of_bound joins ended id member, rfl⟩
  | model property source =>
      exact fun id member => ⟨_, spot?_of_compileModel joins ended id member, rfl⟩
  | event name source =>
      rw [none_of_compileEvent ended]
      exact fun _ member => absurd member List.not_mem_nil

end

end Engine

/-- A binding that is compiled on a node sets something of that node. In the history of a
run, whatever it sets is at its own spot; and if the node was in use when the binding came
into being and no text has since replaced what the node is part of, the place has not been
given to another node: it is the node that the binding was compiled on, still in use. -/
theorem settings_reach_own_node {α : Type} {code : κ → Occasion κ → Program κ σ Value}
    (uses : ∀ body occasion, (code body occasion).Uses (Command.Asks asks))
    {program : Program κ σ α} (starts : program.Uses (Command.Asks asks)) (nesting depth : Nat)
    (host : σ) :
    (∀ (context : Context κ) (node : NodeId) (state later : State κ σ) (ids : List SubscriberId),
      (∃ directive, compileDirective (Program.invoke code nesting) context node directive state =
          .ended (.ok ids) later) ∨
        compileText (Program.invoke code nesting) context node state = .ended (.ok ids) later →
      ∀ id ∈ ids, ∃ spot, later.spot? id = some spot ∧ spot.node = node) ∧
    ∃ history,
      (program.execute (Program.invoke code nesting) depth (.initial host)).state.History asks
        history ∧
      ∀ front id setting, front ++ [.set id setting] <+: history →
        ∃ first reaction between, front = first ++ .bound id reaction :: between ∧
          reaction.spot? = some setting.spot ∧
          ((Event.document first).Live setting.spot.node →
            (Event.document first).Spares setting.spot.node (Event.edits between) →
            (Event.document front).Live setting.spot.node ∧
              (Event.document first).Retains setting.spot.node (Event.edits between)) := by
  have joins := Trail.joins_recording (σ := σ) uses nesting
  constructor
  · rintro context node state later ids (⟨directive, ended⟩ | ended)
    · exact spot?_of_compileDirective joins ended
    · exact fun id member => ⟨_, spot?_of_compileText joins ended id member, rfl⟩
  · obtain ⟨history, recorded⟩ :=
      Program.corresponds_execute joins Trail.free_recording depth starts (State.initial host)
    refine ⟨history, recorded.told, ?_⟩
    intro front id setting set
    obtain ⟨reaction, member, sets⟩ :=
      recorded.bound_of_set (State.blueprint?_initial host) set
    obtain ⟨first, between, rfl⟩ := List.append_of_mem member
    refine ⟨first, reaction, between, rfl, sets, ?_⟩
    intro live spared
    have document : Event.document (first ++ .bound id reaction :: between) =
        (Event.document first).after (Event.edits between) := by
      rw [Event.document, Event.edits_append, after_append]
      rfl
    rw [document]
    exact retains_of_spares live spared

namespace Nested

def idle : Unit → Occasion Unit → Program Unit Unit Value := fun _ _ => pure .null

/-- A view on an element, with a binding on the first of the two nodes in it. -/
def mounted : Program Unit Unit Unit := do
  let outer ← Program.run (.createNode (.element "div"))
  Program.run (.append Document.body outer)
  let inner ← Program.run (.createNode (.element "p"))
  Program.run (.append outer inner)
  Program.run (.setAttribute inner ":title" "name")
  let other ← Program.run (.createNode (.element "b"))
  Program.run (.append outer other)
  let person ← Program.run (.newRecord [("name", .text "Ada")])
  let _ ← Program.run (.mount "div" person .empty)

/-- A second view, on the body, that binds the text of a node. -/
def covered (node : NodeId) : Program Unit Unit Unit := do
  mounted
  Program.run (.setAttribute node "m-text" "label")
  let page ← Program.run (.newRecord [("label", .text "Hi")])
  let _ ← Program.run (.mount "body" page .empty)

def renamed (node : NodeId) : Program Unit Unit Unit := do
  covered node
  let _ ← Program.run (.createNode (.element "span"))
  Program.run (.write (.field ⟨0⟩ "name") (.text "Grace"))

def state (program : Program Unit Unit Unit) : State Unit Unit :=
  (program.execute (Program.invoke idle 1) 4 (.initial ())).state

/-- Nobody but bindings sets a text or a property. -/
abbrev Untouched {α : Type} (program : Program Unit Unit α) : Prop :=
  program.Uses (Command.Asks (fun _ => False))

theorem untouched_run {α : Type} {command : Command Unit α} (plain : command.setting? = none) :
    Untouched (Program.run command) := by
  apply Program.uses_run
  intro setting sets
  rw [plain] at sets
  cases sets

theorem untouched_mounted : Untouched mounted := by
  apply Program.uses_bind (untouched_run rfl)
  intro outer
  apply Program.uses_bind (untouched_run rfl)
  intro _
  apply Program.uses_bind (untouched_run rfl)
  intro inner
  apply Program.uses_bind (untouched_run rfl)
  intro _
  apply Program.uses_bind (untouched_run rfl)
  intro _
  apply Program.uses_bind (untouched_run rfl)
  intro other
  apply Program.uses_bind (untouched_run rfl)
  intro _
  apply Program.uses_bind (untouched_run rfl)
  intro person
  exact Program.uses_bind (untouched_run rfl) (fun _ => trivial)

theorem untouched_renamed (node : NodeId) : Untouched (renamed node) := by
  have covered : Untouched (covered node) := by
    apply Program.uses_bind untouched_mounted
    intro _
    apply Program.uses_bind (untouched_run rfl)
    intro _
    apply Program.uses_bind (untouched_run rfl)
    intro page
    exact Program.uses_bind (untouched_run rfl) (fun _ => trivial)
  apply Program.uses_bind covered
  intro _
  apply Program.uses_bind (untouched_run rfl)
  intro _
  exact untouched_run rfl

def edits : List (Edit (Listener Unit)) :=
  [.setAttribute ⟨3⟩ "m-text" "label", .setTextContent ⟨3⟩ "Hi", .removeAttribute ⟨3⟩ "m-text",
    .create (.element "span"), .setProperty ⟨2⟩ "title" (.text "Grace")]

theorem spares_edits : (state mounted).document.Spares ⟨2⟩ edits := by
  refine ⟨not_false, ?_, not_false, not_false, not_false, trivial⟩
  rintro ⟨-, below⟩
  obtain ⟨child, listed, -⟩ := below_iff.mp below
  have none : ((Edit.setAttribute ⟨3⟩ "m-text" "label").make (state mounted).document).children
      ⟨3⟩ = [] := by decide +kernel
  rw [none] at listed
  cases listed

end Nested

/-- The text of the second view takes the place of nothing that the first one is about: the
paragraph is the same node, in use, when the name in the data of the first view is set. -/
theorem settings_reach_own_node_nested :
    Nested.Untouched (Nested.renamed ⟨3⟩) ∧
    (∃ history, (Nested.state (Nested.renamed ⟨3⟩)).History (fun _ => False) history ∧
      ∀ front id setting, front ++ [.set id setting] <+: history →
        ∃ first reaction between, front = first ++ .bound id reaction :: between ∧
          reaction.spot? = some setting.spot ∧
          ((Event.document first).Live setting.spot.node →
            (Event.document first).Spares setting.spot.node (Event.edits between) →
            (Event.document front).Live setting.spot.node ∧
              (Event.document first).Retains setting.spot.node (Event.edits between))) ∧
    (Nested.state Nested.mounted).spot? ⟨0⟩ = some (.property ⟨2⟩ "title") ∧
    (Nested.state Nested.mounted).document.Live ⟨2⟩ ∧
    (Nested.state Nested.mounted).document.Spares ⟨2⟩ Nested.edits ∧
    ((Nested.state Nested.mounted).document.after Nested.edits).nodes =
      (Nested.state (Nested.renamed ⟨3⟩)).document.nodes ∧
    (Nested.state Nested.mounted).document.Retains ⟨2⟩ Nested.edits ∧
    (Nested.state (Nested.renamed ⟨3⟩)).document.Live ⟨2⟩ ∧
    (Nested.state (Nested.renamed ⟨3⟩)).document.kind ⟨2⟩ = .element "p" ∧
    (Nested.state (Nested.renamed ⟨3⟩)).document.property ⟨2⟩ "title" = .text "Grace" := by
  have idle : ∀ body occasion, Nested.Untouched (Nested.idle body occasion) := fun _ _ => trivial
  have live : (Nested.state Nested.mounted).document.Live ⟨2⟩ := by decide +kernel
  have retained := (retains_of_spares live Nested.spares_edits).2
  exact ⟨Nested.untouched_renamed ⟨3⟩,
    (settings_reach_own_node idle (Nested.untouched_renamed ⟨3⟩) 1 4 ()).2, by decide +kernel,
    live, Nested.spares_edits, by decide +kernel, retained, by decide +kernel, by decide +kernel,
    by decide +kernel⟩

/-- It takes the place of both nodes of the first view, and a new element gets the place of
the one that a binding was compiled on. The binding goes on and sets the property of the
new element. -/
theorem setting_reaches_new_node :
    (Nested.state Nested.mounted).spot? ⟨0⟩ = some (.property ⟨2⟩ "title") ∧
    (Nested.state Nested.mounted).document.kind ⟨2⟩ = .element "p" ∧
    ¬ (Nested.state (Nested.covered ⟨1⟩)).document.Live ⟨2⟩ ∧
    ((Nested.state (Nested.covered ⟨1⟩)).document.create (.element "span")).1 = ⟨2⟩ ∧
    ((Nested.state (Nested.covered ⟨1⟩)).document.create (.element "span")).2.property ⟨2⟩
      "title" = .null ∧
    (Nested.state (Nested.renamed ⟨1⟩)).document.kind ⟨2⟩ = .element "span" ∧
    (Nested.state (Nested.renamed ⟨1⟩)).document.property ⟨2⟩ "title" = .text "Grace" := by
  refine ⟨by decide +kernel, by decide +kernel, by decide +kernel, by decide +kernel,
    by decide +kernel, by decide +kernel, by decide +kernel⟩

end ReactiveView
