import ReactiveView.Proofs.Forest
import ReactiveView.Reactive.Compilation

/-!
# The walk over a tree

What a compilation is to make of a tree, read off the tree as it stands: the nodes
that it visits, and for each of them the bindings, the listeners and the attributes
that are left. The walk is in document order and does not go below an element whose
text a directive takes over.
-/

namespace ReactiveView

set_option autoImplicit false

/-- What is fixed of a binding when it is made. -/
structure Blueprint (κ : Type) where
  source : String
  formula : Formula
  context : Context κ
  reaction : Reaction κ

/-- What a reaction sets in a document. -/
inductive Spot where
  | text (node : NodeId)
  | property (node : NodeId) (name : String)
  deriving DecidableEq

namespace Spot

def node : Spot → NodeId
  | text node => node
  | property node _ => node

end Spot

variable {κ : Type}

namespace Reaction

def spot? : Reaction κ → Option Spot
  | code _ => none
  | textContent node => some (.text node)
  | renderedText node => some (.text node)
  | property node name => some (.property node name)

theorem ne_code {reaction : Reaction κ} {spot : Spot} (sets : reaction.spot? = some spot)
    (body : κ) : reaction ≠ .code body := by
  rintro rfl
  cases sets

end Reaction

namespace Blueprint

def spots (blueprints : List (Blueprint κ)) : List Spot :=
  blueprints.filterMap (fun blueprint => blueprint.reaction.spot?)

theorem spots_append (first second : List (Blueprint κ)) :
    spots (first ++ second) = spots first ++ spots second := List.filterMap_append

end Blueprint

namespace Binding

def blueprint (binding : Binding κ) : Blueprint κ :=
  ⟨binding.source, binding.formula, binding.context, binding.reaction⟩

end Binding

namespace Directive

/-- An attribute is a directive. -/
def isRecognised (entry : String × String) : Bool := (parse? entry.1 entry.2).isSome

def spelled (source : String) : Expression :=
  (Expression.parse? source).getD (.literal (.text source))

def blueprint? (context : Context κ) (node : NodeId) : Directive → Option (Blueprint κ)
  | text source => some ⟨source, .expression (spelled source), context, .textContent node⟩
  | bind property source | model property source =>
      some ⟨source, .expression (spelled source), context,
        .property node (property.getD Engine.valueProperty)⟩
  | event _ _ => none

/-- A two-way binding listens to input if its value is a field path. -/
def registration? (context : Context κ) (node : NodeId) :
    Directive → Option (Registration (Listener κ))
  | text _ | bind _ _ => none
  | model property source =>
      (spelled source).path?.map (fun path =>
        ⟨node, Engine.inputEvent, .writeBack context (property.getD Engine.valueProperty) path⟩)
  | event name source => some ⟨node, name, .handler context (Handler.parse source)⟩

def blueprints (context : Context κ) (node : NodeId) (entries : List (String × String)) :
    List (Blueprint κ) :=
  entries.filterMap (fun entry => (parse? entry.1 entry.2).bind (blueprint? context node))

def registrations (context : Context κ) (node : NodeId) (entries : List (String × String)) :
    List (Registration (Listener κ)) :=
  entries.filterMap (fun entry => (parse? entry.1 entry.2).bind (registration? context node))

variable {context : Context κ} {node : NodeId}

theorem node_of_blueprint? {directive : Directive} {blueprint : Blueprint κ}
    (made : directive.blueprint? context node = some blueprint) :
    blueprint.context = context ∧
      ∃ spot, blueprint.reaction.spot? = some spot ∧ spot.node = node ∧
        (spot = .text node ↔ directive.ownsText = true) := by
  cases directive with
  | event name source => cases made
  | text source =>
      cases made
      exact ⟨rfl, _, rfl, rfl, iff_of_true rfl rfl⟩
  | bind property source =>
      cases made
      exact ⟨rfl, _, rfl, rfl, iff_of_false (fun same => by cases same) Bool.false_ne_true⟩
  | model property source =>
      cases made
      exact ⟨rfl, _, rfl, rfl, iff_of_false (fun same => by cases same) Bool.false_ne_true⟩

theorem text_mem_spots {entries : List (String × String)} :
    Spot.text node ∈ Blueprint.spots (blueprints context node entries) ↔
      Engine.ownsText entries = true := by
  constructor
  · intro member
    obtain ⟨blueprint, made, sets⟩ := List.mem_filterMap.mp member
    obtain ⟨entry, among, made⟩ := List.mem_filterMap.mp made
    obtain ⟨directive, parsed, made⟩ := Option.bind_eq_some_iff.mp made
    obtain ⟨-, spot, sets', -, owns⟩ := node_of_blueprint? made
    cases sets.symm.trans sets'
    refine List.any_eq_true.mpr ⟨entry, among, ?_⟩
    rw [parsed]
    exact owns.mp rfl
  · intro owns
    obtain ⟨entry, among, directs⟩ := List.any_eq_true.mp owns
    obtain ⟨directive, parsed, text⟩ := (Option.any_eq_true _ _).mp directs
    cases directive with
    | text source =>
        refine List.mem_filterMap.mpr
          ⟨⟨source, .expression (spelled source), context, .textContent node⟩, ?_, rfl⟩
        refine List.mem_filterMap.mpr ⟨entry, among, ?_⟩
        rw [parsed]
        rfl
    | _ => cases text

theorem node_of_registration? {directive : Directive} {registration : Registration (Listener κ)}
    (added : directive.registration? context node = some registration) :
    registration.node = node := by
  cases directive with
  | text source => cases added
  | bind property source => cases added
  | model property source =>
      obtain ⟨path, -, rfl⟩ := Option.map_eq_some_iff.mp added
      rfl
  | event name source =>
      cases added
      rfl

end Directive

namespace Node

def blueprints (context : Context κ) (id : NodeId) (node : Node) : List (Blueprint κ) :=
  match node.kind with
  | .comment _ => []
  | .text content =>
      (Template.parse? content).toList.map (fun template =>
        ⟨content, .template template, context, .renderedText id⟩)
  | .element _ => Directive.blueprints context id node.attributes.entries

/-- The listeners of a node alone. -/
def registrations (context : Context κ) (id : NodeId) (node : Node) :
    List (Registration (Listener κ)) :=
  match node.kind with
  | .element _ => Directive.registrations context id node.attributes.entries
  | _ => []

def ownsText (node : Node) : Bool :=
  node.kind.isElement && Engine.ownsText node.attributes.entries

def descends (node : Node) : Bool :=
  node.kind.isElement && !Engine.ownsText node.attributes.entries

variable {context : Context κ} {id : NodeId} {node : Node} {blueprint : Blueprint κ}

/-- The bindings of a node set its text or its properties, its text only where it is
taken over. -/
theorem spot_of_blueprints (member : blueprint ∈ node.blueprints context id) :
    blueprint.context = context ∧
      ∃ spot, blueprint.reaction.spot? = some spot ∧ spot.node = id ∧
        (spot = .text id → node.descends = false) := by
  unfold blueprints at member
  split at member
  · cases member
  · next content text =>
      obtain ⟨template, -, rfl⟩ := List.mem_map.mp member
      refine ⟨rfl, _, rfl, rfl, fun _ => ?_⟩
      rw [descends, text]
      rfl
  · next tag element =>
      obtain ⟨entry, among, made⟩ := List.mem_filterMap.mp member
      obtain ⟨directive, parsed, made⟩ := Option.bind_eq_some_iff.mp made
      obtain ⟨about, spot, same, here, -⟩ := Directive.node_of_blueprint? made
      refine ⟨about, spot, same, here, fun text => ?_⟩
      have owns := Directive.text_mem_spots.mp
        (List.mem_filterMap.mpr ⟨blueprint, member, text ▸ same⟩)
      rw [descends, owns, Bool.not_true, Bool.and_false]

theorem node_of_registrations {registration : Registration (Listener κ)}
    (member : registration ∈ node.registrations context id) : registration.node = id := by
  unfold registrations at member
  split at member
  · obtain ⟨entry, -, added⟩ := List.mem_filterMap.mp member
    obtain ⟨directive, -, added⟩ := Option.bind_eq_some_iff.mp added
    exact Directive.node_of_registration? added
  · cases member

end Node

namespace Document

variable {listener : Type}

def walkWithin (document : Document listener) : Nat → NodeId → List NodeId
  | 0, _ => []
  | depth + 1, parent =>
      (document.children parent).flatMap (fun child =>
        child :: if (document.node child).descends then document.walkWithin depth child else [])

/-- The nodes that are visited below a node, in document order. -/
def walk (document : Document listener) (root : NodeId) : List NodeId :=
  document.walkWithin (document.nodes.size + 1) root

def blueprints (document : Document listener) (context : Context κ) (ids : List NodeId) :
    List (Blueprint κ) :=
  ids.flatMap (fun id => (document.node id).blueprints context id)

def registrations (document : Document listener) (context : Context κ) (ids : List NodeId) :
    List (Registration (Listener κ)) :=
  ids.flatMap (fun id => (document.node id).registrations context id)

def visit (document : Document listener) (depth : Nat) (child : NodeId) : List NodeId :=
  child :: if (document.node child).descends then document.walkWithin depth child else []

variable {document : Document listener} {depth : Nat} {parent child id : NodeId}

theorem walkWithin_succ (depth : Nat) (parent : NodeId) :
    document.walkWithin (depth + 1) parent =
      (document.children parent).flatMap (document.visit depth) := rfl

theorem mem_visit : id ∈ document.visit depth child ↔
    id = child ∨ (document.node child).descends = true ∧ id ∈ document.walkWithin depth child := by
  unfold visit
  split
  · next descends => simp [descends]
  · next stays => simp [stays]

theorem blueprints_visit (document : Document listener) (context : Context κ) (depth : Nat)
    (child : NodeId) : document.blueprints context (document.visit depth child) =
      (document.node child).blueprints context child ++
        if (document.node child).descends then
          document.blueprints context (document.walkWithin depth child) else [] := by
  rw [visit, blueprints, List.flatMap_cons]
  split <;> rfl

theorem below_of_walkWithin (member : id ∈ document.walkWithin depth parent) :
    document.Below parent id := by
  induction depth generalizing parent with
  | zero => cases member
  | succ depth induction =>
      obtain ⟨child, listed, visited⟩ := List.mem_flatMap.mp member
      rcases mem_visit.mp visited with rfl | ⟨-, below⟩
      · exact .single listed
      · exact .head listed (induction below)

theorem within_of_visit (member : id ∈ document.visit depth child) : document.Within child id := by
  rcases mem_visit.mp member with rfl | ⟨-, below⟩
  · exact .refl
  · exact (below_of_walkWithin below).within

theorem Forest.nodup_walkWithin (forest : document.Forest) (depth : Nat) (parent : NodeId) :
    (document.walkWithin depth parent).Nodup := by
  induction depth generalizing parent with
  | zero => exact List.nodup_nil
  | succ depth induction =>
      rw [walkWithin_succ, List.nodup_flatMap]
      constructor
      · intro child listed
        unfold visit
        split
        · refine List.nodup_cons.mpr ⟨fun again => ?_, induction child⟩
          exact forest.acyclic child (below_of_walkWithin again)
        · exact List.nodup_singleton child
      · refine (forest.pairwise parent).imp ?_
        intro first second apart id member member'
        exact apart id (within_of_visit member) (within_of_visit member')

/-- Nodes below the root with a visited node below them are visited, and gone below. -/
theorem Forest.descends_of_walkWithin (forest : document.Forest)
    (member : id ∈ document.walkWithin depth parent) {above : NodeId}
    (below : document.Below above id) (inside : document.Below parent above) :
    (document.node above).descends = true := by
  induction depth generalizing parent with
  | zero => cases member
  | succ depth induction =>
      obtain ⟨child, listed, visited⟩ := List.mem_flatMap.mp member
      obtain ⟨other, listed', within⟩ := below_iff.mp inside
      have same : other = child := by
        by_contra differs
        exact forest.disjoint listed' listed differs (within.trans below.within)
          (within_of_visit visited)
      subst same
      rcases mem_visit.mp visited with rfl | ⟨descends, deeper⟩
      · exact absurd (below.trans_left within) (forest.acyclic above)
      · rcases within_iff_below.mp within with rfl | inner
        · exact descends
        · exact induction deeper inner

/-- The parent of a visited node is the root, or visited as well. -/
theorem parent_of_walkWithin (member : id ∈ document.walkWithin depth parent) :
    ∃ above, id ∈ document.children above ∧
      (above = parent ∨ above ∈ document.walkWithin depth parent) := by
  induction depth generalizing parent with
  | zero => cases member
  | succ depth induction =>
      obtain ⟨child, listed, visited⟩ := List.mem_flatMap.mp member
      have enter {other : NodeId} (visited : other ∈ document.visit depth child) :
          other ∈ document.walkWithin (depth + 1) parent :=
        List.mem_flatMap.mpr ⟨child, listed, visited⟩
      rcases mem_visit.mp visited with rfl | ⟨descends, deeper⟩
      · exact ⟨parent, listed, .inl rfl⟩
      · obtain ⟨above, member, here | among⟩ := induction deeper
        · exact ⟨above, member, .inr (enter (mem_visit.mpr (.inl here)))⟩
        · exact ⟨above, member, .inr (enter (mem_visit.mpr (.inr ⟨descends, among⟩)))⟩

end Document

end ReactiveView
