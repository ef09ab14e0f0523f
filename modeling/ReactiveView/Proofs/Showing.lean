import ReactiveView.Proofs.Entering

/-!
# A mounted view shows its data

Whatever writes, events and input come after a mount, as long as all of them end well the
document holds what templates, texts and properties evaluate to on the data that are there
then.
-/

namespace ReactiveView

set_option autoImplicit false

variable {κ σ : Type}

namespace Document

variable {listener : Type} {document : Document listener} {context : Context κ}
  {ids : List NodeId} {id root : NodeId}

theorem not_mem_spots {spot : Spot} (absent : spot.node ∉ ids) :
    spot ∉ Blueprint.spots (document.blueprints context ids) := by
  intro member
  obtain ⟨blueprint, planned, sets⟩ := List.mem_filterMap.mp member
  obtain ⟨-, spot', sets', visited, -⟩ := mem_blueprints planned
  cases sets.symm.trans sets'
  exact absent visited

/-- A text that is a template is set by one binding only. -/
theorem Forest.single_text (forest : document.Forest) (visited : id ∈ document.walk root)
    {content : String} (text : document.kind id = .text content) {template : Template}
    (parsed : Template.parse? content = some template) :
    (Blueprint.spots (document.blueprints context (document.walk root))).count (.text id) = 1 := by
  obtain ⟨before, after, split⟩ := List.append_of_mem visited
  have distinct : (before ++ id :: after).Nodup := split ▸ forest.nodup_walkWithin _ root
  rw [List.nodup_append, List.nodup_cons] at distinct
  obtain ⟨-, ⟨after', -⟩, before'⟩ := distinct
  have own : Blueprint.spots ((document.node id).blueprints context id) = [.text id] := by
    unfold Document.kind at text
    rw [Node.blueprints, text]
    simp only [parsed]
    rfl
  have first : Spot.text id ∉ Blueprint.spots (document.blueprints context before) :=
    not_mem_spots fun member => before' id member id List.mem_cons_self rfl
  have last : Spot.text id ∉ Blueprint.spots (document.blueprints context after) :=
    not_mem_spots after'
  have parts : document.blueprints context (before ++ id :: after) =
      document.blueprints context before ++ ((document.node id).blueprints context id ++
        document.blueprints context after) := by
    rw [blueprints, blueprints, blueprints, List.flatMap_append, List.flatMap_cons]
  rw [split, parts, Blueprint.spots_append, Blueprint.spots_append, own, List.count_append,
    List.count_append, List.count_eq_zero.mpr first, List.count_eq_zero.mpr last]
  simp

theorem property_of_holds {node : NodeId} {name : String} {value : Value}
    (holds : document.Holds (.property node name value)) : document.property node name = value := by
  have found : (document.node node).properties.find? name = some value := holds
  rw [property, found]

end Document

namespace State

/-- Templates, texts and properties that a view alone sets are in the document as they
evaluate on the data. -/
structure ShowsData (invoke : Invoke κ σ) (reference : Document (Listener κ)) (view : View κ)
    (state : State κ σ) : Prop where
  templates : ∀ id ∈ reference.walk view.mount, ∀ content template,
    reference.kind id = .text content → Template.parse? content = some template →
      ∃ text, Engine.evaluateFormula invoke view.context (.template template) state =
          .ended (.ok (.text text)) state ∧
        state.document.textContent id = text
  texts : ∀ blueprint ∈ view.plan reference, ∀ node, blueprint.reaction = .textContent node →
    (view.spots reference).count (.text node) = 1 →
      ∃ value, Engine.evaluateFormula invoke view.context blueprint.formula state =
          .ended (.ok value) state ∧
        state.document.textContent node = if value = .null then "" else state.store.text value
  properties : ∀ blueprint ∈ view.plan reference, ∀ node name,
    blueprint.reaction = .property node name →
    (view.spots reference).count (.property node name) = 1 →
      ∃ value, Engine.evaluateFormula invoke view.context blueprint.formula state =
          .ended (.ok value) state ∧
        state.document.property node name = value

variable {invoke : Invoke κ σ} {reference : Document (Listener κ)} {view : View κ}
  {state later : State κ σ}

theorem Mounted.holds (mounted : state.Mounted reference view) (invoke : Invoke κ σ)
    {blueprint : Blueprint κ} (planned : blueprint ∈ view.plan reference) {spot : Spot}
    (sets : blueprint.reaction.spot? = some spot) (once : (view.spots reference).count spot = 1) :
    ∃ value setting, Engine.evaluateFormula invoke view.context blueprint.formula state =
        .ended (.ok value) state ∧
      blueprint.reaction.setting? state.store value = some setting ∧
      state.document.Holds setting ∧ state.document.Live spot.node := by
  obtain ⟨id, member, here⟩ := exists_of_plan mounted.plan planned
  have about := (Document.mem_blueprints planned).1
  have sets' : state.spot? id = some spot := by rw [State.spot?, here, Option.bind_some, sets]
  obtain ⟨binding, found, rfl⟩ := binding?_of_blueprint? here
  have shows := mounted.shows id member
  have alive := mounted.alive id member
  obtain ⟨value, handed, evaluated⟩ := (shows.fresh binding found alive).value
    ((mounted.rooted.coherent.exact id).plain binding found) not_false invoke
    mounted.rooted.coherent.idle
  obtain ⟨value', setting, handed', set, holds⟩ :=
    shows.displays (mounted.sole id member spot sets' once) binding found alive
  cases handed.symm.trans handed'
  have context : binding.context = view.context := about
  exact ⟨value, setting, context ▸ evaluated, set, holds, mounted.arranged.live sets'⟩

theorem Mounted.showsData (mounted : state.Mounted reference view) (forest : reference.Forest)
    (invoke : Invoke κ σ) : state.ShowsData invoke reference view where
  templates := by
    intro id visited content template text parsed
    have planned : ⟨content, .template template, view.context, .renderedText id⟩ ∈
        view.plan reference := by
      refine List.mem_flatMap.mpr ⟨id, visited, ?_⟩
      unfold Document.kind at text
      rw [Node.blueprints, text]
      simp [parsed]
    obtain ⟨value, setting, evaluated, set, holds, live⟩ :=
      mounted.holds invoke planned rfl (forest.single_text visited text parsed)
    cases set
    obtain ⟨spelled, middle, parts, ended⟩ := Engine.ok_of_bind evaluated
    cases ended
    exact ⟨spelled, evaluated, Document.textContent_of_spells live holds⟩
  texts := by
    intro blueprint planned node reaction once
    obtain ⟨value, setting, evaluated, set, holds, live⟩ :=
      mounted.holds invoke planned (congrArg Reaction.spot? reaction) once
    rw [reaction] at set
    cases set
    exact ⟨value, evaluated, Document.textContent_of_spells live holds⟩
  properties := by
    intro blueprint planned node name reaction once
    obtain ⟨value, setting, evaluated, set, holds, -⟩ :=
      mounted.holds invoke planned (congrArg Reaction.spot? reaction) once
    rw [reaction] at set
    cases set
    exact ⟨value, evaluated, Document.property_of_holds holds⟩

/-- What may happen to a mounted view: writes to reactive fields, events whose listeners
only make such writes, and input to an element whose value is bound both ways to a field
path. All of it ends well. -/
inductive Happens (invoke : Invoke κ σ) (reference : Document (Listener κ)) (view : View κ)
    (state : State κ σ) : State κ σ → Prop where
  | alters {later : State κ σ} (alters : state.Alters invoke later) :
      Happens invoke reference view state later
  | dispatch {target : NodeId} {event : String} {later : State κ σ}
      (mild : Engine.Mild invoke event target (state.document.listenersFor target event) state)
      (ended : Engine.dispatch invoke target event state = .ended (.ok ()) later) :
      Happens invoke reference view state later
  | input {target : NodeId} {value : Value} {later : State κ σ}
      (models : view.Models reference target)
      (mild : Engine.Mild invoke Engine.inputEvent target
        (state.document.listenersFor target Engine.inputEvent)
        (state.changeDocument (·.setProperty target Engine.valueProperty value)))
      (ended : Engine.input invoke target value state = .ended (.ok ()) later) :
      Happens invoke reference view state later

theorem Happens.advances (happens : state.Happens invoke reference view later)
    (mounted : state.Mounted reference view) : state.Advances view.context.data later := by
  cases happens with
  | alters alters => exact alters.advances mounted.rooted mounted.arranged
  | dispatch mild ended =>
      exact Engine.advances_listeners mounted.rooted mounted.arranged mild ended
  | input models mild ended => exact mounted.advances_input models mild ended

theorem Mounted.run (mounted : state.Mounted reference view)
    (run : Relation.ReflTransGen (Happens invoke reference view) state later) :
    later.Mounted reference view := by
  induction run with
  | refl => exact mounted
  | tail _ step mounted => exact mounted.advances (step.advances mounted)

end State

/-- After a mount that succeeds, and whatever then happens, the document shows the
data. -/
theorem mounted_view_shows_data {invoke : Invoke κ σ} {depth : Nat} {selector : String}
    {data : RecordId} {methods : Dictionary κ} {state mounted later : State κ σ} {view : View κ}
    (mountable : state.Mountable data view.mount)
    (plain : ∀ blueprint ∈ view.plan state.document,
      blueprint.formula.callsNone view.context.methods = true)
    (made : Engine.mountView invoke depth selector data methods state =
      .ended (.ok view) mounted)
    (run : Relation.ReflTransGen (State.Happens invoke state.document view) mounted later) :
    later.ShowsData invoke state.document view :=
  ((mounted_of_mountView mountable plain made).run run).showsData
    mountable.arranged.wellFormed.forest invoke

namespace Form

theorem pristine : state.store.Pristine ⟨0⟩ := by
  apply Store.pristine_newRecord
  intro field member
  rw [List.mem_singleton.mp member]
  rfl

def mounted : State Unit Unit :=
  (Engine.mountView invoke 2 "body" ⟨0⟩ .empty state).state

def renamed : State Unit Unit :=
  (Engine.write invoke (.field ⟨0⟩ "name") (.text "Bob") mounted).state

def entered : State Unit Unit := (Engine.input invoke ⟨3⟩ (.text "Cy") renamed).state

theorem mounts : ∃ bindings, Engine.mountView invoke 2 "body" ⟨0⟩ .empty state =
    .ended (.ok ⟨Document.body, context, bindings⟩) mounted := by
  have succeeds : ((Engine.mountView invoke 2 "body" ⟨0⟩ .empty state).ended?.bind
      (fun ended => ended.1.toOption)).isSome = true := by
    decide +kernel
  obtain ⟨view, result⟩ := Option.isSome_iff_exists.mp succeeds
  have ended := Course.ended_of_result result
  obtain ⟨found, about, -⟩ := Engine.ok_of_mountView ended
  have body : state.document.query "body" = some Document.body := by decide +kernel
  obtain ⟨mount, context', bindings⟩ := view
  cases found.symm.trans body
  cases about
  exact ⟨bindings, ended⟩

/-- A view of the form, whatever its bindings are. -/
def view (bindings : List SubscriberId) : View Unit := ⟨Document.body, context, bindings⟩

theorem models (bindings : List SubscriberId) : (view bindings).Models document ⟨3⟩ := by
  have single : (Blueprint.spots (document.blueprints context
      (document.walk Document.body))).count (.property ⟨3⟩ Engine.valueProperty) = 1 := by
    decide +kernel
  have entry : ("%", "name") ∈ (document.node ⟨3⟩).attributes.entries := by decide +kernel
  have parsed : Directive.parse? "%" "name" = some (.model none "name") := by decide +kernel
  have spelled : (Directive.spelled "name").path? = some ["name"] := by decide +kernel
  exact ⟨(by decide +kernel : (⟨3⟩ : NodeId) ∈ document.walk Document.body), by decide +kernel,
    ⟨_, entry, none, "name", _, parsed, rfl, spelled⟩, single⟩

theorem alters : State.Alters invoke mounted renamed := by
  have result : (Engine.write invoke (.field ⟨0⟩ "name") (.text "Bob") mounted).ended?.bind
      (fun ended => ended.1.toOption) = some () := by
    decide +kernel
  exact .write (by decide +kernel) rfl (Course.ended_of_result result)

/-- Where a listener writes back to, and from which property. -/
def written : Listener Unit → Option (RecordId × String × List String)
  | .writeBack context property path => some (context.data, property, path)
  | _ => none

theorem mild : Engine.Mild invoke Engine.inputEvent ⟨3⟩
    (renamed.document.listenersFor ⟨3⟩ Engine.inputEvent)
    (renamed.changeDocument (·.setProperty ⟨3⟩ Engine.valueProperty (.text "Cy"))) := by
  have listeners : (renamed.document.listenersFor ⟨3⟩ Engine.inputEvent).map written =
      [some (⟨0⟩, "value", ["name"])] := by
    decide +kernel
  obtain ⟨listener, rest, here, back, others⟩ := List.map_eq_cons_iff.mp listeners
  cases List.map_eq_nil_iff.mp others
  rw [here]
  intro later _
  refine ⟨?_, trivial⟩
  cases listener with
  | writeBack context property path =>
      obtain ⟨data, methods⟩ := context
      cases back
      exact ⟨⟨0⟩, "name", rfl, rfl, by decide +kernel, by decide +kernel⟩
  | code body => cases back
  | handler context handler => cases back

theorem happens (bindings : List SubscriberId) :
    State.Happens invoke document (view bindings) renamed entered := by
  have result : (Engine.input invoke ⟨3⟩ (.text "Cy") renamed).ended?.bind
      (fun ended => ended.1.toOption) = some () := by
    decide +kernel
  exact .input (models bindings) mild (Course.ended_of_result result)

end Form

/-- The paragraph has the name that was entered last. -/
theorem mounted_view_shows_data_form :
    (∃ bindings, Form.entered.ShowsData Form.invoke Form.document (Form.view bindings)) ∧
      Form.entered.document.textContent ⟨1⟩ = "Cy" ∧
      Form.entered.document.textContent ⟨4⟩ = "Hi Cy!" := by
  have calls : (Form.document.blueprints Form.context (Form.document.walk Document.body)).all
      (fun blueprint => blueprint.formula.callsNone Form.context.methods) = true := by
    decide +kernel
  obtain ⟨bindings, made⟩ := Form.mounts
  have plain : ∀ blueprint ∈ (Form.view bindings).plan Form.state.document,
      blueprint.formula.callsNone (Form.view bindings).context.methods = true :=
    List.all_eq_true.mp calls
  have mountable : Form.state.Mountable ⟨0⟩ Document.body :=
    State.mountable_of_pristine Form.pristine Form.wellFormed_document (by decide +kernel) _ ()
  have run : Relation.ReflTransGen (State.Happens Form.invoke Form.document (Form.view bindings))
      Form.mounted Form.entered :=
    .tail (.single (.alters Form.alters)) (Form.happens bindings)
  exact ⟨⟨bindings, mounted_view_shows_data mountable plain made run⟩,
    by decide +kernel, by decide +kernel⟩

end ReactiveView
