import ReactiveView.Proofs.Compiling

/-!
# A compiled tree

A compilation that succeeds makes of a tree what the walk over it says, although it
reads the tree while its bindings already change it: what is done within one child
leaves what is within the next ones as it was.
-/

namespace ReactiveView

set_option autoImplicit false

variable {κ σ : Type}

namespace Dictionary

variable {α : Type}

theorem entries_foldl_erase (names : List String) (table : Dictionary α) :
    (names.foldl Dictionary.erase table).entries =
      table.entries.filter (fun entry => entry.1 ∉ names) := by
  induction names generalizing table with
  | nil => simp
  | cons name rest induction =>
      rw [List.foldl_cons, induction, erase, List.filter_filter]
      apply List.filter_congr
      intro entry _
      simp [Bool.and_comm]

end Dictionary

/-- Without the directives the other attributes are left, in their order. -/
theorem Directive.entries_erase_names (table : Dictionary String) :
    ((names table.entries).foldl Dictionary.erase table).entries =
      table.entries.filter (fun entry => !isRecognised entry) := by
  rw [Dictionary.entries_foldl_erase]
  apply List.filter_congr
  intro entry member
  have among : entry.1 ∈ names table.entries ↔ isRecognised entry = true := by
    simp only [names, List.mem_map, List.mem_filter]
    constructor
    · rintro ⟨other, ⟨member', recognised⟩, same⟩
      rwa [← List.inj_on_of_nodup_map table.distinct member' member same]
    · exact fun recognised => ⟨entry, ⟨member, recognised⟩, rfl⟩
  rw [decide_not, Bool.decide_congr among, Bool.decide_eq_true]

namespace Node

def removed (node : Node) : List String :=
  match node.kind with
  | .element _ => Directive.names node.attributes.entries
  | _ => []

variable {listener : Type}

/-- What a compilation leaves of a node that it visits. -/
structure Settled (context : Context κ) (old : Node) (document : Document listener) (id : NodeId) :
    Prop where
  live : document.Live id
  parent : (document.node id).parent = old.parent
  kind : ∃ text, document.kind id = old.kind.withContent text
  attributes : old.kind.isElement = true → (document.node id).attributes.entries =
    old.attributes.entries.filter (fun entry => !Directive.isRecognised entry)
  children : old.descends = true → document.children id = old.children
  texted : old.ownsText = true → ∃ text, document.Spells id text
  untouched : old.kind.isElement = false → old.blueprints context id = [] → document.node id = old

variable {context : Context κ} {old : Node} {document later : Document listener} {id : NodeId}

theorem Settled.same (settled : old.Settled context document id) (live : later.Live id)
    (same : later.node id = document.node id)
    (below : old.ownsText = true → ∀ child ∈ document.children id,
      later.node child = document.node child) :
    old.Settled context later id where
  live := live
  parent := (congrArg Node.parent same).trans settled.parent
  kind := by
    rw [Document.kind, same]
    exact settled.kind
  attributes := by
    rw [same]
    exact settled.attributes
  children := by
    rw [Document.children, same]
    exact settled.children
  texted := by
    intro owns
    obtain ⟨text, spells⟩ := settled.texted owns
    exact ⟨text, spells.same (congrArg Node.kind same) (congrArg Node.children same) (below owns)⟩
  untouched := by
    rw [same]
    exact settled.untouched

theorem not_spot_of_descends (descends : old.descends = true) :
    Spot.text id ∉ Blueprint.spots (old.blueprints context id) := by
  intro member
  obtain ⟨blueprint, made, sets⟩ := List.mem_filterMap.mp member
  obtain ⟨-, spot, sets', -, stays⟩ := spot_of_blueprints made
  cases sets.symm.trans sets'
  rw [stays rfl] at descends
  cases descends

theorem spot_iff_ownsText (element : old.kind.isElement = true) :
    Spot.text id ∈ Blueprint.spots (old.blueprints context id) ↔ old.ownsText = true := by
  obtain ⟨tag, kind⟩ := Document.tag_of_isElement element
  rw [ownsText, element, Bool.true_and, blueprints, kind]
  exact Directive.text_mem_spots

theorem removed_of_leaf (leaf : old.kind.isElement = false) : old.removed = [] := by
  unfold removed
  split
  · next tag element =>
      rw [element] at leaf
      cases leaf
  · rfl

/-- A node whose bindings have been made is settled. -/
theorem settled_of_tended {added : List (Registration listener)}
    (tended : document.Tended later id
      (Blueprint.spots ((document.node id).blueprints context id)) (document.node id).removed added) :
    (document.node id).Settled context later id where
  live := tended.live
  parent := tended.parent
  kind := tended.kind
  attributes := by
    intro element
    obtain ⟨tag, kind⟩ := Document.tag_of_isElement element
    rw [tended.attributes, ← Directive.entries_erase_names, removed, kind]
  children := fun descends => (tended.untexted (not_spot_of_descends descends)).2
  texted := fun owns => tended.texted
    ((spot_iff_ownsText (Bool.and_eq_true_iff.mp owns).1).mpr owns)
  untouched := by
    intro leaf none
    apply tended.untouched
    · rw [none]
      rfl
    · exact removed_of_leaf leaf

end Node

namespace Document

variable {listener : Type} {reference document later : Document listener} {root id : NodeId}
  {visited : List NodeId} {context : Context κ}

/-- Nodes of a region are in use, and as they are in a reference. -/
def Agrees (reference document : Document listener) (region : NodeId → Prop) : Prop :=
  ∀ id, region id → document.Live id ∧ document.node id = reference.node id

def Underneath (document : Document listener) (visited : List NodeId) (id : NodeId) : Prop :=
  ∃ owner ∈ visited, (document.node owner).ownsText = true ∧ document.Below owner id

namespace Agrees

variable {region region' : NodeId → Prop}

theorem mono (agrees : reference.Agrees document region) (fewer : ∀ id, region' id → region id) :
    reference.Agrees document region' := fun id inside => agrees id (fewer id inside)

theorem after (agrees : reference.Agrees document region)
    (kept : document.KeptOutside later region') (apart : ∀ id, region id → ¬ region' id) :
    reference.Agrees later region := by
  intro id inside
  obtain ⟨live, same⟩ := agrees id inside
  obtain ⟨live', same'⟩ := kept id live (apart id inside)
  exact ⟨live', same'.trans same⟩

theorem within (agrees : reference.Agrees document (reference.Within root)) (id : NodeId) :
    document.Within root id ↔ reference.Within root id :=
  within_congr fun other inside => congrArg Node.children (agrees other inside).2

theorem below (agrees : reference.Agrees document (reference.Within root)) (id : NodeId) :
    document.Below root id ↔ reference.Below root id := by
  have same : document.children root = reference.children root :=
    congrArg Node.children (agrees root .refl).2
  rw [below_iff, below_iff, same]
  refine exists_congr fun child => and_congr_right fun listed => ?_
  exact (agrees.mono fun _ inside => (Within.below inside listed).within).within id

end Agrees

/-- What is below a node within one child has not got into the next ones. -/
theorem Agrees.apart (wellFormed : reference.WellFormed) (wellFormed' : document.WellFormed)
    {parent first second other : NodeId} (listed : first ∈ reference.children parent)
    (listed' : second ∈ reference.children parent) (differs : first ≠ second)
    (agrees : reference.Agrees document (reference.Within second))
    (within : reference.Within first id) (step : other ∈ document.children id) :
    ¬ reference.Within second other := by
  intro inside
  rw [← agrees.within] at inside
  rcases Relation.ReflTransGen.cases_tail inside with same | ⟨above, path, step'⟩
  · subst same
    have named := (wellFormed'.child step).2
    rw [(agrees _ .refl).2, (wellFormed.child listed').2] at named
    cases named
    exact wellFormed.acyclic _ (within.below listed)
  · cases wellFormed'.forest.unique step step'
    exact wellFormed.forest.disjoint listed listed' differs within ((agrees.within id).mp path)

/-- What is done within one child leaves its later siblings as the reference has them. -/
theorem Agrees.siblings (wellFormed : reference.WellFormed) {parent child : NodeId}
    {rest : List NodeId} (listed : child ∈ reference.children parent)
    (listed' : ∀ other ∈ rest, other ∈ reference.children parent) (absent : child ∉ rest)
    (agrees : ∀ other ∈ rest, reference.Agrees document (reference.Within other))
    (kept : document.KeptOutside later (reference.Within child)) :
    ∀ other ∈ rest, reference.Agrees later (reference.Within other) := by
  intro other member
  refine (agrees other member).after kept ?_
  intro id within within'
  exact wellFormed.forest.disjoint listed (listed' other member)
    (fun same => absent (same ▸ member)) within' within

theorem mem_blueprints {blueprint : Blueprint κ}
    (member : blueprint ∈ document.blueprints context visited) :
    blueprint.context = context ∧ ∃ spot, blueprint.reaction.spot? = some spot ∧
      spot.node ∈ visited ∧
      (spot = .text spot.node → (document.node spot.node).descends = false) := by
  obtain ⟨id, among, made⟩ := List.mem_flatMap.mp member
  obtain ⟨about, spot, sets, rfl, stays⟩ := Node.spot_of_blueprints made
  exact ⟨about, spot, sets, among, stays⟩

theorem node_of_registrations {registration : Registration (Listener κ)}
    (member : registration ∈ document.registrations context visited) :
    registration.node ∈ visited := by
  obtain ⟨id, among, added⟩ := List.mem_flatMap.mp member
  rw [Node.node_of_registrations added]
  exact among

end Document

namespace State

/-- What the walk over a reference says of some visited nodes has been done. -/
structure Compiles (reference : Document (Listener κ)) (context : Context κ)
    (visited : List NodeId) (region : NodeId → Prop) (state later : State κ σ)
    (ids : List SubscriberId) (bindings : List (Binding κ)) : Prop where
  made : state.Made later ids bindings
  plan : bindings.map Binding.blueprint = reference.blueprints context visited
  wellFormed : later.document.WellFormed
  kept : state.document.KeptOutside later.document region
  settled : ∀ id ∈ visited, (reference.node id).Settled context later.document id
  listeners : state.document.Relistened later.document (reference.Underneath visited)
    (reference.registrations context visited)
  displayed : ∀ binding ∈ bindings, ∀ spot, binding.reaction.spot? = some spot →
    (Blueprint.spots (reference.blueprints context visited)).count spot = 1 →
      binding.Displayed later.store later.document

variable {reference : Document (Listener κ)} {context : Context κ} {visited visited' : List NodeId}
  {region region' : NodeId → Prop} {state later final : State κ σ} {ids ids' : List SubscriberId}
  {bindings bindings' : List (Binding κ)} {child : NodeId}

theorem Compiles.trans (wellFormed : state.document.WellFormed)
    (before : Compiles reference context visited region state later ids bindings)
    (after : Compiles reference context visited' region' later final ids' bindings')
    (settles : ∀ id ∈ visited, (reference.node id).Settled context later.document id →
      (reference.node id).Settled context final.document id)
    (displays : ∀ (binding : Binding κ) spot, binding.reaction.spot? = some spot →
      spot.node ∈ visited →
      (spot = .text spot.node → (reference.node spot.node).descends = false) →
      binding.Displayed later.store later.document → binding.Displayed final.store final.document)
    (apart : ∀ id ∈ visited, ¬ reference.Underneath visited' id) :
    Compiles reference context (visited ++ visited') (fun id => region id ∨ region' id) state final
      (ids ++ ids') (bindings ++ bindings') where
  made := before.made.trans after.made
  plan := by
    rw [List.map_append, before.plan, after.plan, Document.blueprints, Document.blueprints,
      Document.blueprints, List.flatMap_append]
  wellFormed := after.wellFormed
  kept := (before.kept.mono fun _ => Or.inl).trans after.kept fun _ _ => Or.inr
  settled := by
    intro id member
    rcases List.mem_append.mp member with former | latter
    · exact settles id former (before.settled id former)
    · exact after.settled id latter
  listeners := by
    rw [Document.registrations, List.flatMap_append]
    refine before.listeners.trans wellFormed after.listeners ?_ ?_ ?_
    · rintro id ⟨owner, among, owns, below⟩
      exact ⟨owner, List.mem_append_left _ among, owns, below⟩
    · rintro id - ⟨owner, among, owns, below⟩
      exact ⟨owner, List.mem_append_right _ among, owns, below⟩
    · exact fun entry member => apart _ (Document.node_of_registrations member)
  displayed := by
    intro binding member spot sets single
    rw [Document.blueprints, List.flatMap_append, Blueprint.spots_append] at single
    change (Blueprint.spots (reference.blueprints context visited) ++
      Blueprint.spots (reference.blueprints context visited')).count spot = 1 at single
    rcases List.mem_append.mp member with former | latter
    · rw [← before.plan] at single
      have once := (single_append former sets single).1
      have planned : binding.blueprint ∈ reference.blueprints context visited :=
        before.plan ▸ List.mem_map_of_mem former
      obtain ⟨-, spot', sets', among, stays⟩ := Document.mem_blueprints planned
      cases sets.symm.trans sets'
      exact displays binding spot sets among stays
        (before.displayed binding former spot sets (before.plan ▸ once))
    · rw [List.count_append, ← after.plan] at single
      have once := List.count_pos_iff.mpr (mem_spots latter sets)
      exact after.displayed binding latter spot sets (by rw [← after.plan]; omega)

theorem Compiles.mono
    (compiles : Compiles reference context visited region state later ids bindings)
    (wider : ∀ id, region id → region' id) :
    Compiles reference context visited region' state later ids bindings :=
  { compiles with kept := compiles.kept.mono wider }

theorem Compiles.planned
    (compiles : Compiles reference context visited region state later ids bindings) :
    ids.map later.blueprint? = (reference.blueprints context visited).map some := by
  rw [compiles.made.map_blueprint?, compiles.plan]

theorem Tends.compiles
    (agrees : reference.Agrees state.document (reference.Within child))
    (tends : state.Tends later child ((reference.node child).blueprints context child)
      (reference.node child).removed ((reference.node child).registrations context child) ids
      bindings) :
    Compiles reference context [child]
      (fun id => id = child ∨ (reference.node child).descends = false ∧ reference.Below child id)
      state later ids bindings := by
  have here : state.document.node child = reference.node child := (agrees child .refl).2
  have plan : reference.blueprints context [child] =
      (reference.node child).blueprints context child := List.flatMap_singleton ..
  have added : reference.registrations context [child] =
      (reference.node child).registrations context child := List.flatMap_singleton ..
  refine ⟨tends.made, plan ▸ tends.plan, tends.document.wellFormed, ?_, ?_, ?_, ?_⟩
  · refine tends.document.kept.mono ?_
    rintro id (rfl | ⟨set, below⟩)
    · exact .inl rfl
    · refine .inr ⟨?_, (agrees.below id).mp below⟩
      exact Bool.eq_false_iff.mpr fun descends => Node.not_spot_of_descends descends set
  · intro id member
    rw [List.mem_singleton.mp member, ← here]
    apply Node.settled_of_tended
    rw [here]
    exact tends.document
  · obtain ⟨gone, inside, listeners⟩ := tends.document.listeners
    refine ⟨gone, ?_, by rw [added]; exact listeners⟩
    intro id member
    obtain ⟨element, set, below⟩ := inside id member
    rw [Document.kind, here] at element
    exact ⟨child, List.mem_singleton_self child, (Node.spot_iff_ownsText element).mp set,
      (agrees.below id).mp below⟩
  · rw [plan]
    exact tends.displayed

/-- A node of which nothing below is visited. -/
theorem Tends.compiles_visit {depth : Nat} (stays : (reference.node child).descends = false)
    (agrees : reference.Agrees state.document (reference.Within child))
    (tends : state.Tends later child ((reference.node child).blueprints context child)
      (reference.node child).removed ((reference.node child).registrations context child) ids
      bindings) :
    Compiles reference context (reference.visit depth child) (reference.Within child) state later
      ids bindings := by
  have visit : reference.visit depth child = [child] := by
    rw [Document.visit, stays]
    rfl
  rw [visit]
  apply (tends.compiles agrees).mono
  rintro id (rfl | ⟨-, below⟩)
  · exact .refl
  · exact below.within

theorem Compiles.inward (wellFormed : reference.WellFormed)
    (descends : (reference.node child).descends = true)
    (agrees : reference.Agrees state.document (reference.Within child))
    (before : Compiles reference context [child]
      (fun id => id = child ∨ (reference.node child).descends = false ∧ reference.Below child id)
      state later ids bindings) :
    later.document.children child = reference.children child ∧
      ∀ below ∈ reference.children child,
        reference.Agrees later.document (reference.Within below) := by
  refine ⟨(before.settled child (List.mem_singleton_self child)).children descends, ?_⟩
  intro below listed
  refine Document.Agrees.after (agrees.mono fun id within =>
    (within.below listed).within) before.kept ?_
  rintro id within (rfl | ⟨stays, -⟩)
  · exact wellFormed.acyclic _ (within.below listed)
  · rw [descends] at stays
    cases stays

theorem Compiles.descend (forest : reference.Forest) (wellFormed : state.document.WellFormed)
    (descends : (reference.node child).descends = true)
    (inside : ∀ id ∈ visited, reference.Below child id)
    (before : Compiles reference context [child]
      (fun id => id = child ∨ (reference.node child).descends = false ∧ reference.Below child id)
      state later ids bindings)
    (after : Compiles reference context visited (reference.Below child) later final ids' bindings') :
    Compiles reference context (child :: visited) (reference.Within child) state final
      (ids ++ ids') (bindings ++ bindings') := by
  have live := (before.settled child (List.mem_singleton_self child)).live
  obtain ⟨live', same⟩ := after.kept child live (forest.acyclic child)
  have whole := before.trans wellFormed after ?_ ?_ ?_
  · apply whole.mono
    rintro id ((rfl | ⟨-, below⟩) | below)
    · exact .refl
    · exact below.within
    · exact below.within
  · intro id member settled
    cases List.mem_singleton.mp member
    refine settled.same live' same (fun owns => ?_)
    rw [Node.descends, Bool.and_eq_true, Bool.not_eq_true'] at descends
    rw [Node.ownsText, descends.2, Bool.and_false] at owns
    cases owns
  · intro binding spot sets member stays displayed
    have here := List.mem_singleton.mp member
    refine displayed.same sets (fun value _ => after.made.data.text value) (here ▸ same) ?_
    intro text
    rw [here, descends] at stays
    cases stays (here ▸ text)
  · rintro id member ⟨owner, among, -, below⟩
    cases List.mem_singleton.mp member
    exact forest.acyclic child ((inside owner among).trans below)

theorem Compiles.sibling {parent : NodeId} {depth : Nat} {rest : List NodeId}
    (reference_wellFormed : reference.WellFormed) (wellFormed : state.document.WellFormed)
    (listed : child ∈ reference.children parent)
    (listed' : ∀ other ∈ rest, other ∈ reference.children parent) (absent : child ∉ rest)
    (agrees : ∀ other ∈ rest, reference.Agrees later.document (reference.Within other))
    (before : Compiles reference context (reference.visit depth child) (reference.Within child)
      state later ids bindings)
    (after : Compiles reference context (rest.flatMap (reference.visit depth))
      (fun id => ∃ other ∈ rest, reference.Within other id) later final ids' bindings') :
    Compiles reference context ((child :: rest).flatMap (reference.visit depth))
      (fun id => ∃ other ∈ child :: rest, reference.Within other id) state final (ids ++ ids')
      (bindings ++ bindings') := by
  have differs {other : NodeId} (member : other ∈ rest) : child ≠ other :=
    fun same => absent (same ▸ member)
  have apart {id : NodeId} (within : reference.Within child id) :
      ¬ ∃ other ∈ rest, reference.Within other id := by
    rintro ⟨other, member, within'⟩
    exact reference_wellFormed.forest.disjoint listed (listed' other member) (differs member) within
      within'
  have around {id below : NodeId} (within : reference.Within child id)
      (step : below ∈ later.document.children id) : final.document.node below =
        later.document.node below := by
    refine (after.kept below (before.wellFormed.child step).1 ?_).2
    rintro ⟨other, member, inside⟩
    exact Document.Agrees.apart reference_wellFormed before.wellFormed listed (listed' other member)
      (differs member) (agrees other member) within step inside
  have whole := before.trans wellFormed after ?_ ?_ ?_
  · apply whole.mono
    rintro id (within | ⟨other, member, within⟩)
    · exact ⟨child, List.mem_cons_self, within⟩
    · exact ⟨other, List.mem_cons_of_mem _ member, within⟩
  · intro id member settled
    have within := Document.within_of_visit member
    obtain ⟨live, same⟩ := after.kept id settled.live (apart within)
    exact settled.same live same (fun _ below step => around within step)
  · intro binding spot sets member _ displayed
    have within := Document.within_of_visit member
    have live := (before.settled _ member).live
    exact displayed.same sets (fun value _ => after.made.data.text value)
      (after.kept _ live (apart within)).2 (fun _ below step => around within step)
  · rintro id member ⟨owner, among, -, below⟩
    obtain ⟨other, member', visited⟩ := List.mem_flatMap.mp among
    exact apart (Document.within_of_visit member)
      ⟨other, member', (Document.within_of_visit visited).trans below.within⟩

theorem Compiles.none (wellFormed : state.document.WellFormed) :
    Compiles reference context [] (fun _ => False) state state [] [] where
  made := .refl state
  plan := rfl
  wellFormed := wellFormed
  kept := fun _ live _ => ⟨live, rfl⟩
  settled := fun _ none => absurd none List.not_mem_nil
  listeners := Document.relistened_same (List.append_nil _).symm
  displayed := fun _ none => absurd none List.not_mem_nil

end State

namespace Engine

variable {reference : Document (Listener κ)} {invoke : Invoke κ σ} {context : Context κ}
  {state later : State κ σ} {ids : List SubscriberId} {child parent : NodeId}

theorem compiles_makeEach {depth : Nat} {make : NodeId → Engine κ σ (List SubscriberId)}
    (reference_wellFormed : reference.WellFormed) {children : List NodeId}
    (listed : ∀ child ∈ children, child ∈ reference.children parent) (distinct : children.Nodup)
    (each : ∀ child ∈ children, ∀ (state later : State κ σ) ids, state.document.WellFormed →
      reference.Agrees state.document (reference.Within child) →
      make child state = .ended (.ok ids) later →
      ∃ bindings, State.Compiles reference context (reference.visit depth child)
        (reference.Within child) state later ids bindings)
    (wellFormed : state.document.WellFormed)
    (agrees : ∀ child ∈ children, reference.Agrees state.document (reference.Within child))
    (ended : makeEach make children state = .ended (.ok ids) later) :
    ∃ bindings, State.Compiles reference context (children.flatMap (reference.visit depth))
      (fun id => ∃ child ∈ children, reference.Within child id) state later ids bindings := by
  induction children generalizing state ids with
  | nil =>
      cases ended
      have none : State.Compiles reference context [] (fun _ => False) later later [] [] :=
        .none wellFormed
      exact ⟨[], none.mono (fun _ => False.elim)⟩
  | cons child rest induction =>
      rw [List.nodup_cons] at distinct
      obtain ⟨made, others, middle, first, second, rfl⟩ := ok_of_makeBoth ended
      obtain ⟨bindings, before⟩ := each child List.mem_cons_self state middle made wellFormed
        (agrees child List.mem_cons_self) first
      have agrees' := Document.Agrees.siblings reference_wellFormed (listed child List.mem_cons_self)
        (fun other member => listed other (List.mem_cons_of_mem _ member)) distinct.1
        (fun other member => agrees other (List.mem_cons_of_mem _ member)) before.kept
      obtain ⟨bindings', after⟩ := induction
        (fun other member => listed other (List.mem_cons_of_mem _ member)) distinct.2
        (fun other member => each other (List.mem_cons_of_mem _ member)) before.wellFormed agrees'
        second
      exact ⟨bindings ++ bindings', before.sibling reference_wellFormed wellFormed
        (listed child List.mem_cons_self)
        (fun other member => listed other (List.mem_cons_of_mem _ member)) distinct.1 agrees' after⟩

theorem tends_compileText (wellFormed : state.document.WellFormed)
    (live : state.document.Live child) {content : String}
    (kind : (state.document.node child).kind = .text content)
    (plain : ∀ blueprint ∈ (state.document.node child).blueprints context child,
      blueprint.formula.callsNone context.methods = true)
    (ended : compileText invoke context child state = .ended (.ok ids) later) :
    ∃ bindings, state.Tends later child ((state.document.node child).blueprints context child)
      (state.document.node child).removed ((state.document.node child).registrations context child)
      ids bindings := by
  have spelled : state.document.textContent child = content := by
    apply Document.textContent_of_spells live
    rw [Document.Spells, Document.kind, kind]
    rfl
  obtain ⟨text, middle, looked, ended⟩ := ok_of_bind ended
  injection looked with same looked
  have same : text = content := (Except.ok.inj same).symm.trans spelled
  subst same looked
  obtain ⟨found, after, parsed, ended⟩ := ok_of_bind ended
  obtain ⟨parses, quiet⟩ := ok_of_parseTemplate parsed
  have none : (state.document.node child).removed = [] ∧
      (state.document.node child).registrations context child = [] := by
    rw [Node.removed, Node.registrations, kind]
    exact ⟨rfl, rfl⟩
  have blueprints : (state.document.node child).blueprints context child =
      found.toList.map (fun template =>
        ⟨text, .template template, context, .renderedText child⟩) := by
    rw [Node.blueprints, kind, parses]
  rw [none.1, none.2, blueprints]
  rw [blueprints] at plain
  have unchanged : state.Tends after child [] [] [] [] [] := .refl wellFormed live quiet
  cases found with
  | none =>
      cases ended
      exact ⟨[], unchanged⟩
  | some template =>
      obtain ⟨id, final, bound, ended⟩ := ok_of_bind ended
      obtain ⟨bindings, tends⟩ := tends_bindFormula unchanged.document.wellFormed
        unchanged.document.live (plain _ (List.mem_singleton_self _)) rfl rfl bound
      cases ended
      exact ⟨bindings, unchanged.trans wellFormed tends (fun _ none => absurd none List.not_mem_nil)⟩

theorem tends_element {node : Node} {tag : String} (kind : node.kind = .element tag)
    (wellFormed : state.document.WellFormed) (live : state.document.Live child)
    (plain : ∀ blueprint ∈ node.blueprints context child,
      blueprint.formula.callsNone context.methods = true)
    (ended : makeEach (compileAttribute invoke context child) node.attributes.entries state =
      .ended (.ok ids) later) :
    ∃ bindings, state.Tends later child (node.blueprints context child) node.removed
      (node.registrations context child) ids bindings := by
  rw [Node.blueprints, kind] at plain
  rw [Node.blueprints, Node.removed, Node.registrations, kind]
  exact tends_compileAttributes wellFormed live plain ended

/-- What a compilation does about one child. -/
def compileChild (invoke : Invoke κ σ) (context : Context κ) (depth : Nat) (child : NodeId) :
    Engine κ σ (List SubscriberId) := do
  let node ← look (fun state => state.document.node child)
  match node.kind with
  | .comment _ => pure []
  | .text _ => compileText invoke context child
  | .element _ =>
      makeBoth (makeEach (compileAttribute invoke context child) node.attributes.entries)
        (if ownsText node.attributes.entries then pure []
          else compileBelow invoke context depth child)

theorem compileBelow_succ (depth : Nat) (parent : NodeId) :
    compileBelow invoke context (depth + 1) parent = (do
      let children ← look (fun state => state.document.children parent)
      makeEach (compileChild invoke context depth) children) := rfl

/-- Wherever all that is below a node is as the reference has it, it is compiled as the walk
says. -/
def CompilesBelow (invoke : Invoke κ σ) (context : Context κ) (reference : Document (Listener κ))
    (bound depth : Nat) (parent : NodeId) : Prop :=
  ∀ (state later : State κ σ) ids, state.document.WellFormed →
    state.document.children parent = reference.children parent →
    (∀ child ∈ reference.children parent,
      reference.Agrees state.document (reference.Within child)) →
    compileBelow invoke context depth parent state = .ended (.ok ids) later →
    ∃ bindings, State.Compiles reference context (reference.walkWithin bound parent)
      (reference.Below parent) state later ids bindings

section Child

variable {bound depth : Nat} (wellFormed : state.document.WellFormed)
  (agrees : reference.Agrees state.document (reference.Within child))
  (plain : ∀ blueprint ∈ (reference.node child).blueprints context child,
    blueprint.formula.callsNone context.methods = true)

include wellFormed agrees

omit plain in
theorem compiles_comment {content : String}
    (kind : (reference.node child).kind = .comment content) :
    State.Compiles reference context (reference.visit bound child) (reference.Within child) state
      state [] [] := by
  have stays : (reference.node child).descends = false := by
    rw [Node.descends, kind]
    rfl
  apply State.Tends.compiles_visit stays agrees
  rw [Node.blueprints, Node.removed, Node.registrations, kind]
  exact .refl wellFormed (agrees child .refl).1 (.refl state)

include plain

theorem compiles_text {content : String} (kind : (reference.node child).kind = .text content)
    (ended : compileText invoke context child state = .ended (.ok ids) later) :
    ∃ bindings, State.Compiles reference context (reference.visit bound child)
      (reference.Within child) state later ids bindings := by
  obtain ⟨live, here⟩ := agrees child .refl
  have stays : (reference.node child).descends = false := by
    rw [Node.descends, kind]
    rfl
  rw [← here] at plain kind
  obtain ⟨bindings, tends⟩ := tends_compileText wellFormed live kind plain ended
  rw [here] at tends
  exact ⟨bindings, tends.compiles_visit stays agrees⟩

theorem compiles_element (reference_wellFormed : reference.WellFormed)
    (deeper : (reference.node child).descends = true →
      CompilesBelow invoke context reference bound depth child)
    {tag : String} (kind : (reference.node child).kind = .element tag)
    (ended : makeBoth (makeEach (compileAttribute invoke context child)
        (reference.node child).attributes.entries)
      (if ownsText (reference.node child).attributes.entries then pure []
        else compileBelow invoke context depth child) state = .ended (.ok ids) later) :
    ∃ bindings, State.Compiles reference context (reference.visit bound child)
      (reference.Within child) state later ids bindings := by
  have descends : (reference.node child).descends =
      !ownsText (reference.node child).attributes.entries := by
    rw [Node.descends, kind]
    rfl
  obtain ⟨made, others, middle, first, second, rfl⟩ := ok_of_makeBoth ended
  obtain ⟨bindings, tends⟩ := tends_element kind wellFormed (agrees child .refl).1 plain first
  cases owns : ownsText (reference.node child).attributes.entries with
  | true =>
      rw [owns, if_pos rfl] at second
      cases second
      rw [owns, Bool.not_true] at descends
      rw [List.append_nil]
      exact ⟨bindings, tends.compiles_visit descends agrees⟩
  | false =>
      rw [owns, if_neg Bool.false_ne_true] at second
      rw [owns, Bool.not_false] at descends
      have before := tends.compiles agrees
      obtain ⟨children, agrees'⟩ := before.inward reference_wellFormed descends agrees
      obtain ⟨bindings', after⟩ :=
        deeper descends middle later others before.wellFormed children agrees' second
      rw [Document.visit, descends, if_pos rfl]
      exact ⟨bindings ++ bindings', before.descend reference_wellFormed.forest wellFormed descends
        (fun _ => Document.below_of_walkWithin) after⟩

/-- A child and what is below it, if what is below is compiled as the reference has it. -/
theorem compiles_child (reference_wellFormed : reference.WellFormed)
    (deeper : (reference.node child).descends = true →
      CompilesBelow invoke context reference bound depth child)
    (ended : compileChild invoke context depth child state = .ended (.ok ids) later) :
    ∃ bindings, State.Compiles reference context (reference.visit bound child)
      (reference.Within child) state later ids bindings := by
  have looked : (look (fun state => state.document.node child) : Engine κ σ Node) state =
      .ended (.ok (reference.node child)) state := by
    simp only [look, (agrees child .refl).2]
  rw [compileChild, bind_of_ok looked] at ended
  cases kind : (reference.node child).kind with
  | comment content =>
      rw [kind] at ended
      cases ended
      exact ⟨[], compiles_comment wellFormed agrees kind⟩
  | text content =>
      rw [kind] at ended
      exact compiles_text wellFormed agrees plain kind ended
  | element tag =>
      rw [kind] at ended
      exact compiles_element wellFormed agrees plain reference_wellFormed deeper kind ended

end Child

/-- Whatever has been done elsewhere, what is below a node is compiled as the reference
has it. -/
theorem compiles_compileBelow (reference_wellFormed : reference.WellFormed) (depth bound : Nat)
    (bounded : reference.Bounded bound parent)
    (plain : ∀ blueprint ∈ reference.blueprints context (reference.walkWithin bound parent),
      blueprint.formula.callsNone context.methods = true) :
    CompilesBelow invoke context reference bound depth parent := by
  intro state later ids wellFormed children agrees ended
  induction depth generalizing bound parent state later ids with
  | zero => cases ended
  | succ depth induction =>
      have positive : bound ≠ 0 := by
        rintro rfl
        exact bounded
      obtain ⟨bound, rfl⟩ := Nat.exists_eq_succ_of_ne_zero positive
      rw [compileBelow_succ] at ended
      obtain ⟨listed, middle, looked, ended⟩ := ok_of_bind ended
      injection looked with same looked
      have same : listed = reference.children parent := (Except.ok.inj same).symm.trans children
      subst same looked
      obtain ⟨bindings, compiles⟩ : ∃ bindings, State.Compiles reference context
          (reference.walkWithin (bound + 1) parent)
          (fun id => ∃ child ∈ reference.children parent, reference.Within child id)
          state later ids bindings := by
        refine compiles_makeEach reference_wellFormed (fun _ member => member)
          (reference_wellFormed.distinct parent) ?_ wellFormed agrees ended
        intro child member state later ids wellFormed agrees ended
        have plain' : ∀ blueprint ∈ reference.blueprints context (reference.visit bound child),
            blueprint.formula.callsNone context.methods = true := by
          intro blueprint planned
          obtain ⟨id, visited, made⟩ := List.mem_flatMap.mp planned
          exact plain blueprint
            (List.mem_flatMap.mpr ⟨id, List.mem_flatMap.mpr ⟨child, member, visited⟩, made⟩)
        rw [Document.blueprints_visit] at plain'
        obtain ⟨own, below⟩ := List.forall_mem_append.mp plain'
        refine compiles_child wellFormed agrees own reference_wellFormed (fun descends => ?_) ended
        rw [if_pos descends] at below
        exact fun state later ids => induction bound (bounded child member) below state later ids
      exact ⟨bindings, compiles.mono (fun id => Document.below_iff.mpr)⟩

theorem compiles_tree {depth : Nat} {root : NodeId} (wellFormed : state.document.WellFormed)
    (live : state.document.Live root)
    (plain : ∀ blueprint ∈ state.document.blueprints context (state.document.walk root),
      blueprint.formula.callsNone context.methods = true)
    (ended : compileBelow invoke context depth root state = .ended (.ok ids) later) :
    ∃ bindings, State.Compiles state.document context (state.document.walk root)
      (state.document.Below root) state later ids bindings := by
  have agrees (child : NodeId) (listed : child ∈ state.document.children root) :
      state.document.Agrees state.document (state.document.Within child) :=
    fun id within => ⟨wellFormed.live_of_below (within.below listed), rfl⟩
  exact compiles_compileBelow wellFormed depth _ (wellFormed.forest.bounded live.1) plain state
    later ids wellFormed rfl agrees ended

end Engine

namespace State

/-- What the walk over a tree says that a compilation of it gives. -/
structure FollowsWalk (context : Context κ) (root : NodeId) (state later : State κ σ)
    (ids : List SubscriberId) : Prop where
  /-- The bindings are new, one for each that the walk names, in this order. -/
  new : ids = (List.range' state.subscribers.size
    (state.document.blueprints context (state.document.walk root)).length).map SubscriberId.mk
  bindings : ids.map (fun id => (later.binding? id).map Binding.blueprint) =
    (state.document.blueprints context (state.document.walk root)).map some
  alive : ∀ id ∈ ids, later.isAlive id = true
  earlier : ∀ id, id.index < state.subscribers.size → later.subscriber? id = state.subscriber? id
  data : state.store.SameData later.store
  /-- Only nodes that a text replaced have lost their listeners. -/
  listeners : ∃ gone : List NodeId,
    (∀ id ∈ gone, state.document.Underneath (state.document.walk root) id) ∧
    later.document.listeners =
      state.document.listeners.filter (fun entry => entry.node ∉ gone) ++
        state.document.registrations context (state.document.walk root)
  attributes : ∀ id ∈ state.document.walk root, (state.document.kind id).isElement = true →
    (later.document.node id).attributes.entries =
      (state.document.node id).attributes.entries.filter (fun entry => !Directive.isRecognised entry)
  untouched : ∀ id ∈ state.document.walk root, (state.document.kind id).isElement = false →
    (state.document.node id).blueprints context id = [] →
      later.document.node id = state.document.node id
  mount : later.document.node root = state.document.node root
  outside : ∀ id, state.document.Live id → ¬ state.document.Below root id →
    later.document.Live id ∧ later.document.node id = state.document.node id

end State

/-- A compilation that succeeds follows the walk over the tree as it was. -/
theorem compilation_follows_walk {invoke : Invoke κ σ} {context : Context κ} {depth : Nat}
    {root : NodeId} {state later : State κ σ} {ids : List SubscriberId}
    (wellFormed : state.document.WellFormed) (live : state.document.Live root)
    (plain : ∀ blueprint ∈ state.document.blueprints context (state.document.walk root),
      blueprint.formula.callsNone context.methods = true)
    (compiled : Engine.compileBelow invoke context depth root state = .ended (.ok ids) later) :
    State.FollowsWalk context root state later ids := by
  obtain ⟨bindings, compiles⟩ := Engine.compiles_tree wellFormed live plain compiled
  have count : ids.length =
      (state.document.blueprints context (state.document.walk root)).length :=
    compiles.made.length.trans ((List.length_map _).symm.trans (congrArg List.length compiles.plan))
  refine ⟨?_, ?_, ?_, compiles.made.earlier, compiles.made.data, compiles.listeners, ?_, ?_, ?_,
    compiles.kept⟩
  · rw [← count]
    exact compiles.made.new
  · exact compiles.planned
  · exact fun id member => compiles.made.isAlive member
  · exact fun id visited => (compiles.settled id visited).attributes
  · exact fun id visited => (compiles.settled id visited).untouched
  · exact (compiles.kept root live (wellFormed.acyclic root)).2

theorem Course.ended_of_outcome {α : Type} {course : Course κ σ α} {outcome : Except Error α}
    (ended : course.ended?.map Prod.fst = some outcome) : course = .ended outcome course.state := by
  cases course with
  | stopped later => cases ended
  | ended outcome' later =>
      cases ended
      rfl

theorem Course.ended_of_result {α : Type} {course : Course κ σ α} {result : α}
    (ended : course.ended?.bind (fun ended => ended.1.toOption) = some result) :
    course = .ended (.ok result) course.state := by
  apply Course.ended_of_outcome
  cases course with
  | stopped later => cases ended
  | ended outcome later =>
      cases outcome with
      | error error => cases ended
      | ok value =>
          cases ended
          rfl

namespace Form

def tree : Document (Listener Unit) :=
  (((Document.initial.grow Document.body (.element "p")).grow ⟨1⟩ (.text "?")).grow Document.body
    (.element "input")).grow Document.body (.text "Hi \x7b\x7b name \x7d\x7d!")

/-- The text of the paragraph is bound, and the field is bound both ways. -/
def document : Document (Listener Unit) :=
  (((tree.setAttribute ⟨1⟩ "id" "who").setAttribute ⟨1⟩ "m-text" "name").setAttribute ⟨1⟩ "@click"
    "greet").setAttribute ⟨3⟩ "%" "name"

def context : Context Unit := ⟨⟨0⟩, .empty⟩

def state : State Unit Unit :=
  { State.initial () with
    store := (Store.empty.newRecord [("name", .text "Ada")]).2
    document }

theorem wellFormed_tree : tree.WellFormed := by
  unfold tree
  refine (((Document.wellFormed_initial.grow ?_ _).grow ?_ _).grow ?_ _).grow ?_ _ <;> decide +kernel

theorem wellFormed_document : document.WellFormed := by
  unfold document
  refine Document.WellFormed.change (Document.WellFormed.change (Document.WellFormed.change
    (Document.WellFormed.change wellFormed_tree _ ?_ ?_) _ ?_ ?_) _ ?_ ?_) _ ?_ ?_ <;>
  exact fun _ => rfl

/-- Nobody but the view runs code. -/
def invoke : Invoke Unit Unit := fun _ _ state => .stopped state

theorem compiled : ∃ later,
    Engine.compileBelow invoke context 2 Document.body state =
      .ended (.ok [⟨0⟩, ⟨1⟩, ⟨2⟩]) later := by
  have made : ((Engine.compileBelow invoke context 2 Document.body state).ended?.bind
      (fun ended => ended.1.toOption)) = some [⟨0⟩, ⟨1⟩, ⟨2⟩] := by
    decide +kernel
  exact ⟨_, Course.ended_of_result made⟩

end Form

/-- The element and the field are visited, and the text at the end, but not the one in
the element. -/
theorem compilation_follows_walk_form :
    Form.document.walk Document.body = [⟨1⟩, ⟨3⟩, ⟨4⟩] ∧
      ∃ later, State.FollowsWalk Form.context Document.body Form.state later [⟨0⟩, ⟨1⟩, ⟨2⟩] := by
  have plain : (Form.document.blueprints Form.context (Form.document.walk Document.body)).all
      (fun blueprint => blueprint.formula.callsNone Form.context.methods) = true := by
    decide +kernel
  obtain ⟨later, compiled⟩ := Form.compiled
  exact ⟨by decide +kernel, later, compilation_follows_walk Form.wellFormed_document
    (by decide +kernel) (List.all_eq_true.mp plain) compiled⟩

end ReactiveView
