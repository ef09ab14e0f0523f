import ReactiveView.Proofs.Mounting

/-!
# Values that come in

Listeners write to the data while a view is at work. What an element has been given by
input goes back along a field path, and since the binding of the element has read the
field at its end, it sets the property once more.
-/

namespace ReactiveView

set_option autoImplicit false

variable {κ σ : Type}

namespace Engine

theorem walk_concat {store : Store} {whole front : List String} {name : String}
    {root record : RecordId} (walked : walk store whole root (front ++ [name]) = .ok record) :
    ∃ between, walk store whole root front = .ok between ∧
      store.peek (.field between name) = some (.record record) := by
  induction front generalizing root with
  | nil =>
      refine ⟨root, rfl, ?_⟩
      simp only [List.nil_append, walk] at walked
      split at walked
      · next child found =>
          cases walked
          exact found
      · cases walked
      · cases walked
  | cons first rest induction =>
      simp only [List.cons_append, walk] at walked ⊢
      split at walked
      · next child found => exact induction walked
      · cases walked
      · cases walked

end Engine

namespace Expression

variable {store : Store} {context : Context κ} {whole : List String}

theorem reading_identifier (context : Context κ) (store : Store) (name : String) : ∃ rest,
    ((identifier name).reading context store).glimpses =
        .slot (.field context.data name) :: rest ∧
      ∀ value, store.peek (.field context.data name) = some value →
        ((identifier name).reading context store).outcome = .ok value := by
  have read : (Reading.slot (.field context.data name) store).outcome =
      .ok (store.peek (.field context.data name)) := rfl
  rw [reading, Reading.name]
  refine ⟨_, congrArg Account.glimpses (Reading.bind_of_ok read _), ?_⟩
  intro value found
  rw [found] at read
  exact congrArg Account.outcome (Reading.bind_of_ok read _)

/-- A member of a record is read from its field. -/
theorem reading_member {target : Expression} {record : RecordId}
    (outcome : (target.reading context store).outcome = .ok (.record record)) (name : String) :
    (target.member name).reading context store =
      ⟨(target.reading context store).glimpses ++ [.slot (.field record name)],
        .ok ((store.peek (.field record name)).getD .null)⟩ := by
  rw [reading]
  exact Reading.bind_of_ok outcome _

theorem exists_last_of_path {expression : Expression} {path : List String}
    (named : expression.path? = some path) : ∃ field, path.getLast? = some field := by
  cases expression with
  | identifier name =>
      cases named
      exact ⟨name, rfl⟩
  | member target name =>
      obtain ⟨front, -, rfl⟩ := Option.map_eq_some_iff.mp named
      exact ⟨name, List.getLast?_concat⟩
  | _ => cases named

theorem callsNone_of_path (methods : Dictionary κ) (expression : Expression)
    {path : List String} (named : expression.path? = some path) :
    expression.callsNone methods = true := by
  cases expression with
  | identifier name => simp only [callsNone]
  | member target name =>
      obtain ⟨front, named', -⟩ := Option.map_eq_some_iff.mp named
      rw [callsNone]
      exact callsNone_of_path methods target named'
  | _ => cases named

/-- A path whose front leads to a record reads a field of this one at last, and has the
value that the field holds. -/
theorem reading_of_path (expression : Expression) {path : List String} {record : RecordId}
    {field : String} (named : expression.path? = some path) (last : path.getLast? = some field)
    (walked : Engine.walk store whole context.data path.dropLast = .ok record) :
    .slot (.field record field) ∈ (expression.reading context store).glimpses ∧
      ∀ value, store.peek (.field record field) = some value →
        (expression.reading context store).outcome = .ok value := by
  cases expression with
  | identifier name =>
      cases named
      cases last
      cases walked
      obtain ⟨rest, glimpses, outcome⟩ := reading_identifier context store name
      rw [glimpses]
      exact ⟨List.mem_cons_self, outcome⟩
  | member target name =>
      obtain ⟨front, named', rfl⟩ := Option.map_eq_some_iff.mp named
      rw [List.dropLast_concat] at walked
      rw [List.getLast?_concat] at last
      cases last
      -- the target is a path as well, and the record is what its last field holds
      obtain ⟨key, last'⟩ := exists_last_of_path named'
      rw [← List.dropLast_append_getLast? key last'] at walked
      obtain ⟨between, walked', found⟩ := Engine.walk_concat walked
      have outcome := (reading_of_path target named' last' walked').2 _ found
      rw [reading_member outcome]
      refine ⟨List.mem_append_right _ (List.mem_singleton_self _), fun value held => ?_⟩
      rw [held, Option.getD_some]
  | _ => cases named

end Expression

namespace State

/-- What may happen to the data while a view is at work: new containers come in, and
fields that are there and reactive are written. -/
inductive Alters (invoke : Invoke κ σ) (state : State κ σ) : State κ σ → Prop where
  | aside {later : State κ σ} (same : state.SameCore later)
      (document : later.document = state.document) : Alters invoke state later
  | newRecord {fields : List (String × Value)}
      (known : ∀ field ∈ fields, state.store.knows field.2 = true) :
      Alters invoke state (state.changeStore (fun store => (store.newRecord fields).2))
  | newList {items : List Value} (known : ∀ item ∈ items, state.store.knows item = true) :
      Alters invoke state (state.changeStore (fun store => (store.newList items).2))
  | write {record : RecordId} {key : String} {value : Value} {later : State κ σ}
      (reactive : (state.store.registryAt (.field record key)).isSome = true)
      (known : state.store.knows value = true)
      (ended : Engine.write invoke (.field record key) value state = .ended (.ok ()) later) :
      Alters invoke state later

variable {invoke : Invoke κ σ} {root : RecordId} {state later : State κ σ}

theorem Alters.advances (alters : state.Alters invoke later) (rooted : state.Rooted root)
    (arranged : state.Arranged) : state.Advances root later := by
  cases alters with
  | aside same document => exact .aside rooted arranged same document
  | newRecord known =>
      exact .changeStore rooted arranged (Store.continues_newRecord _ _)
        (rooted.newRecord fun field member => Store.within_of_knows (known field member))
  | newList known =>
      exact .changeStore rooted arranged (Store.continues_newList _ _)
        (rooted.newList fun item member => Store.within_of_knows (known item member))
  | write reactive known ended =>
      obtain ⟨registry, attached⟩ := Option.isSome_iff_exists.mp reactive
      exact (Engine.advances_write rooted arranged attached (Store.within_of_knows known) ended).1

theorem advances_of_alterations (rooted : state.Rooted root) (arranged : state.Arranged)
    (alters : Relation.ReflTransGen (Alters invoke) state later) : state.Advances root later := by
  induction alters with
  | refl => exact .refl rooted arranged
  | tail _ step advances => exact advances.trans (step.advances advances.rooted advances.arranged)

end State

/-- A listener only alters the data, and a write-back ends at a reactive field. -/
def Listener.Behaves (invoke : Invoke κ σ) (target : NodeId) (state later : State κ σ) :
    Listener κ → Prop
  | .writeBack context property path =>
      ∃ record field, path.getLast? = some field ∧
        Engine.walk state.store path context.data path.dropLast = .ok record ∧
        (state.store.registryAt (.field record field)).isSome = true ∧
        state.store.knows (state.document.property target property) = true
  | _ => Relation.ReflTransGen (State.Alters invoke) state later

namespace Engine

variable {invoke : Invoke κ σ} {event : String} {target : NodeId} {root : RecordId}
  {state later : State κ σ}

/-- Of listeners that are run in order, each one that ends well behaves. -/
def Mild (invoke : Invoke κ σ) (event : String) (target : NodeId) :
    List (Listener κ) → State κ σ → Prop
  | [], _ => True
  | listener :: rest, state => ∀ later,
      runListener invoke event target listener state = .ended (.ok ()) later →
        listener.Behaves invoke target state later ∧ Mild invoke event target rest later

theorem writeBack_eq (invoke : Invoke κ σ) (event : String) (target : NodeId)
    (context : Context κ) (property : String) (state : State κ σ) {path : List String}
    {field : String} (last : path.getLast? = some field) :
    runListener invoke event target (.writeBack context property path) state =
      (ofExcept (walk state.store path context.data path.dropLast) >>= fun record =>
        write invoke (.field record field) (state.document.property target property)) state := by
  have looked : (look (fun state => state.document.property target property) :
      Engine κ σ Value) state = .ended (.ok (state.document.property target property)) state := rfl
  have store : (look State.store : Engine κ σ Store) state = .ended (.ok state.store) state := rfl
  rw [runListener, bind_of_ok looked, assign, last]
  exact bind_of_ok store _

theorem writeBack_of_walk (invoke : Invoke κ σ) (event : String) (target : NodeId)
    (property : String) {context : Context κ} {path : List String} {record : RecordId}
    {field : String} (last : path.getLast? = some field)
    (walked : walk state.store path context.data path.dropLast = .ok record) :
    runListener invoke event target (.writeBack context property path) state =
      write invoke (.field record field) (state.document.property target property) state := by
  rw [writeBack_eq invoke event target context property state last, walked]
  rfl

theorem ok_of_writeBack {context : Context κ} {property : String} {path : List String}
    (behaves : (Listener.writeBack context property path).Behaves invoke target state later)
    (ended : runListener invoke event target (.writeBack context property path) state =
      .ended (.ok ()) later) :
    ∃ record field registry, path.getLast? = some field ∧
      walk state.store path context.data path.dropLast = .ok record ∧
      state.store.registryAt (.field record field) = some registry ∧
      state.store.knows (state.document.property target property) = true ∧
      write invoke (.field record field) (state.document.property target property) state =
        .ended (.ok ()) later := by
  obtain ⟨record, field, last, walked, reactive, known⟩ := behaves
  obtain ⟨registry, attached⟩ := Option.isSome_iff_exists.mp reactive
  rw [writeBack_of_walk invoke event target property last walked] at ended
  exact ⟨record, field, registry, last, walked, attached, known, ended⟩

theorem advances_runListener {listener : Listener κ} (rooted : state.Rooted root)
    (arranged : state.Arranged) (behaves : listener.Behaves invoke target state later)
    (ended : runListener invoke event target listener state = .ended (.ok ()) later) :
    state.Advances root later := by
  cases listener with
  | writeBack context property path =>
      obtain ⟨record, field, registry, -, -, attached, known, written⟩ :=
        ok_of_writeBack behaves ended
      exact (advances_write rooted arranged attached (Store.within_of_knows known) written).1
  | code body => exact State.advances_of_alterations rooted arranged behaves
  | handler context handler => exact State.advances_of_alterations rooted arranged behaves

/-- Listeners that behave let a view go on. -/
theorem advances_listeners {listeners : List (Listener κ)} (rooted : state.Rooted root)
    (arranged : state.Arranged) (mild : Mild invoke event target listeners state)
    (ended : forEach (runListener invoke event target) listeners state = .ended (.ok ()) later) :
    state.Advances root later := by
  induction listeners generalizing state with
  | nil =>
      cases ended
      exact .refl rooted arranged
  | cons listener rest induction =>
      obtain ⟨_, middle, ran, ended⟩ := ok_of_bind ended
      obtain ⟨behaves, mild⟩ := mild middle ran
      have first := advances_runListener rooted arranged behaves ran
      exact first.trans (induction first.rooted first.arranged mild ended)

end Engine

namespace State

variable {state later : State κ σ} {root : RecordId} {id : SubscriberId}

/-- A binding is alive and current, and its formula is a field path below a root. -/
structure Follows (root : RecordId) (path : List String) (state : State κ σ)
    (id : SubscriberId) : Prop where
  alive : state.isAlive id = true
  fresh : state.Fresh False id
  formula : ∃ blueprint expression, state.blueprint? id = some blueprint ∧
    blueprint.context.data = root ∧ blueprint.formula = .expression expression ∧
    expression.path? = some path

variable {path : List String}

theorem Follows.advances (follows : state.Follows root path id)
    (advances : state.Advances root later) : later.Follows root path id where
  alive := (advances.alive id).trans follows.alive
  fresh := advances.fresh follows.fresh
  formula := by
    rw [advances.blueprint?]
    exact follows.formula

theorem Follows.subscribed (follows : state.Follows root path id) (rooted : state.Rooted root)
    {whole : List String} {record : RecordId} {field : String} {registry : RegistryId}
    (last : path.getLast? = some field)
    (walked : Engine.walk state.store whole root path.dropLast = .ok record)
    (attached : state.store.registryAt (.field record field) = some registry) :
    id ∈ state.store.subscribers registry := by
  obtain ⟨blueprint, expression, planned, about, formula, named⟩ := follows.formula
  obtain ⟨binding, found, rfl⟩ := binding?_of_blueprint? planned
  have formula : binding.formula = .expression expression := formula
  have about : binding.context.data = root := about
  obtain ⟨-, -, -, -, -, covered⟩ := follows.fresh binding found follows.alive
  have reads : .slot (.field record field) ∈ (binding.account state.store).glimpses := by
    rw [Binding.account, formula]
    exact (Expression.reading_of_path expression named last (about.symm ▸ walked)).1
  have subscribed := covered registry (Store.mem_tracked.mpr ⟨_, reads, attached⟩)
  exact ((rooted.coherent.exact id).joined registry).mpr ⟨binding, found, subscribed⟩

end State

namespace Engine

variable {invoke : Invoke κ σ} {event : String} {target : NodeId} {root : RecordId}
  {state later : State κ σ} {id : SubscriberId} {context : Context κ} {property : String}
  {path : List String}

/-- After a write-back a binding to the same path shows the data, whatever the property
was before, and the other listeners leave it so. -/
theorem shows_of_writeBack {listeners : List (Listener κ)} (rooted : state.Rooted root)
    (arranged : state.Arranged) (follows : state.Follows root path id)
    (about : context.data = root)
    (member : .writeBack context property path ∈ listeners)
    (mild : Mild invoke event target listeners state)
    (ended : forEach (runListener invoke event target) listeners state = .ended (.ok ()) later) :
    later.Shows id := by
  induction listeners generalizing state with
  | nil => cases member
  | cons listener rest induction =>
      obtain ⟨_, middle, ran, others⟩ := ok_of_bind ended
      obtain ⟨behaves, mild'⟩ := mild middle ran
      have first := advances_runListener rooted arranged behaves ran
      rcases List.mem_cons.mp member with rfl | among
      · obtain ⟨record, field, registry, last, walked, attached, known, written⟩ :=
          ok_of_writeBack behaves ran
        have dependent := follows.subscribed rooted last (about ▸ walked) attached
        have shown := (advances_write rooted arranged attached (Store.within_of_knows known)
          written).2 id dependent
        exact (advances_listeners first.rooted first.arranged mild' others).shows shown
      · exact induction first.rooted first.arranged (follows.advances first) among mild' others

end Engine

/-- The value of an element is bound by one directive alone, which binds it both ways to
a field path. -/
structure View.Models {listener : Type} (view : View κ) (reference : Document listener)
    (target : NodeId) : Prop where
  visited : target ∈ reference.walk view.mount
  element : (reference.kind target).isElement = true
  directive : ∃ entry ∈ (reference.node target).attributes.entries, ∃ property source path,
    Directive.parse? entry.1 entry.2 = some (.model property source) ∧
      property.getD Engine.valueProperty = Engine.valueProperty ∧
      (Directive.spelled source).path? = some path
  single : (view.spots reference).count (.property target Engine.valueProperty) = 1

namespace State

variable {reference : Document (Listener κ)} {view : View κ} {state later : State κ σ}
  {target : NodeId}

theorem Mounted.modelled (mounted : state.Mounted reference view)
    (models : view.Models reference target) :
    ∃ id ∈ view.bindings, ∃ path,
      state.spot? id = some (.property target Engine.valueProperty) ∧
      state.Follows view.context.data path id ∧
      .writeBack view.context Engine.valueProperty path ∈
        state.document.listenersFor target Engine.inputEvent := by
  obtain ⟨entry, among, property, source, path, parsed, named, spelled⟩ := models.directive
  let blueprint : Blueprint κ := ⟨source, .expression (Directive.spelled source), view.context,
    .property target (property.getD Engine.valueProperty)⟩
  let registration : Registration (Listener κ) := ⟨target, Engine.inputEvent,
    .writeBack view.context (property.getD Engine.valueProperty) path⟩
  have made : blueprint ∈ (reference.node target).blueprints view.context target ∧
      registration ∈ (reference.node target).registrations view.context target := by
    obtain ⟨tag, kind⟩ : ∃ tag, (reference.node target).kind = .element tag :=
      Document.tag_of_isElement models.element
    rw [Node.blueprints, Node.registrations, kind]
    constructor
    · refine List.mem_filterMap.mpr ⟨entry, among, ?_⟩
      rw [parsed]
      rfl
    · refine List.mem_filterMap.mpr ⟨entry, among, ?_⟩
      rw [parsed, Option.bind_some, Directive.registration?, spelled]
      rfl
  have planned : blueprint ∈ view.plan reference :=
    List.mem_flatMap.mpr ⟨target, models.visited, made.1⟩
  obtain ⟨id, member, here⟩ := exists_of_plan mounted.plan planned
  have sets : state.spot? id = some (.property target Engine.valueProperty) := by
    rw [State.spot?, here, ← named]
    rfl
  refine ⟨id, member, path, sets, ⟨mounted.alive id member, (mounted.shows id member).fresh,
    blueprint, _, here, rfl, rfl, spelled⟩, ?_⟩
  have registered := mounted.listeners registration
    (List.mem_flatMap.mpr ⟨target, models.visited, made.2⟩) ⟨id, _, sets, rfl⟩
  refine List.mem_map.mpr ⟨registration, List.mem_filter.mpr ⟨registered, by simp [registration]⟩, ?_⟩
  rw [← named]

/-- Input goes into the document and, by the listeners, into the data; then all bindings
show the data as before. -/
theorem Mounted.advances_input {invoke : Invoke κ σ} {value : Value}
    (mounted : state.Mounted reference view) (models : view.Models reference target)
    (mild : Engine.Mild invoke Engine.inputEvent target
      (state.document.listenersFor target Engine.inputEvent)
      (state.changeDocument (·.setProperty target Engine.valueProperty value)))
    (ended : Engine.input invoke target value state = .ended (.ok ()) later) :
    state.Advances view.context.data later := by
  obtain ⟨id, member, path, sets, follows, written⟩ := mounted.modelled models
  let entered := state.changeDocument (·.setProperty target Engine.valueProperty value)
  have live : state.document.Live target := mounted.arranged.live sets
  have touches : state.Touches entered id (.property target Engine.valueProperty) :=
    ⟨sets, Document.tended_setProperty mounted.arranged.wellFormed live _ value, fun _ => rfl,
      fun _ _ => rfl, fun _ => rfl, fun _ => rfl⟩
  have core : state.SameCore entered := ⟨rfl, rfl, rfl⟩
  obtain ⟨rooted, settles⟩ :=
    (Conduct.freshness κ σ view.context.data False).same core mounted.rooted
  have arranged := mounted.arranged.of_touches touches
  have run : Engine.forEach (Engine.runListener invoke Engine.inputEvent target)
      (state.document.listenersFor target Engine.inputEvent) entered = .ended (.ok ()) later := ended
  have advances := Engine.advances_listeners rooted arranged mild run
  have follows' : entered.Follows view.context.data path id :=
    ⟨follows.alive, settles.fresh follows.fresh, follows.formula⟩
  -- only the binding of the element does not show the data in between
  have shown : later.Shows id :=
    Engine.shows_of_writeBack rooted arranged follows' rfl written mild run
  refine ⟨advances.rooted, advances.arranged, advances.blueprint?, advances.alive, ?_,
    fun fresh => advances.fresh (settles.fresh fresh), ?_⟩
  · exact fun member about => advances.listeners member about
  · intro other shows
    by_cases here : other = id
    · exact here ▸ shown
    · exact advances.shows (touches.shows mounted.arranged settles here shows)

end State

end ReactiveView
