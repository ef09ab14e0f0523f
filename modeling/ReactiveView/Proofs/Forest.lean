import Mathlib.Logic.Relation
import ReactiveView.Document.Content
import ReactiveView.Proofs.Distinct

/-!
# Documents are forests

A node that is in use has at most one parent, which lists it once, and is not below
itself. So what is below two siblings is apart, no path is longer than the arena, and a
change within one subtree leaves all other nodes where they were.
-/

namespace ReactiveView.Document

set_option autoImplicit false

variable {listener : Type}

/-- A node that is in use, attached or not. -/
def Live (document : Document listener) (id : NodeId) : Prop :=
  id.index < document.nodes.size ∧ id ∉ document.released

instance (document : Document listener) (id : NodeId) : Decidable (document.Live id) :=
  inferInstanceAs (Decidable (_ ∧ _))

def Child (document : Document listener) (parent child : NodeId) : Prop :=
  child ∈ document.children parent

def Within (document : Document listener) (root id : NodeId) : Prop :=
  Relation.ReflTransGen document.Child root id

def Below (document : Document listener) (root id : NodeId) : Prop :=
  Relation.TransGen document.Child root id

/-- Each child is listed once, by one node, and no node is below itself. -/
structure Forest (document : Document listener) : Prop where
  inside : ∀ {parent child}, child ∈ document.children parent →
    child.index < document.nodes.size
  unique : ∀ {parent other child}, child ∈ document.children parent →
    child ∈ document.children other → parent = other
  distinct : ∀ id, (document.children id).Nodup
  acyclic : ∀ id, ¬ document.Below id id

/-- A forest in which children and parents name each other, and only nodes in use have
children, parents or listeners. -/
structure WellFormed (document : Document listener) : Prop where
  reusable : ∀ id ∈ document.released, id.index < document.nodes.size
  once : document.released.Nodup
  childless : ∀ id ∈ document.released, document.children id = []
  child : ∀ {parent child}, child ∈ document.children parent →
    document.Live child ∧ (document.node child).parent = some parent
  parent : ∀ {id parent}, document.Live id → (document.node id).parent = some parent →
    id ∈ document.children parent
  distinct : ∀ id, (document.children id).Nodup
  acyclic : ∀ id, ¬ document.Below id id
  listened : ∀ entry ∈ document.listeners, document.Live entry.node

/-- The nodes in use form a forest, in which children name their parents. Places that are not
in use are places of the arena; what they hold does not matter. -/
structure LiveForest (document : Document listener) : Prop where
  reusable : ∀ id ∈ document.released, id.index < document.nodes.size
  child : ∀ {parent child}, document.Live parent → child ∈ document.children parent →
    document.Live child ∧ (document.node child).parent = some parent
  distinct : ∀ {id}, document.Live id → (document.children id).Nodup
  acyclic : ∀ {id}, document.Live id → ¬ document.Below id id

variable {document later : Document listener} {root id parent child : NodeId}

theorem node_of_not_lt (outside : ¬ id.index < document.nodes.size) :
    document.node id = default := by
  rw [node, Array.getElem?_eq_none (Nat.le_of_not_lt outside)]
  rfl

theorem lt_of_child (listed : child ∈ document.children parent) :
    parent.index < document.nodes.size := by
  by_contra outside
  rw [children, node_of_not_lt outside] at listed
  exact List.not_mem_nil listed

theorem within_iff :
    document.Within root id ↔ root = id ∨ ∃ child ∈ document.children root, document.Within child id :=
  Relation.ReflTransGen.cases_head_iff

theorem below_iff :
    document.Below root id ↔ ∃ child ∈ document.children root, document.Within child id :=
  Relation.TransGen.head'_iff

theorem within_iff_below : document.Within root id ↔ root = id ∨ document.Below root id := by
  rw [within_iff, below_iff]

theorem Below.within (below : document.Below root id) : document.Within root id :=
  within_iff_below.mpr (.inr below)

theorem Within.below (within : document.Within root id) (listed : root ∈ document.children parent) :
    document.Below parent id :=
  below_iff.mpr ⟨root, listed, within⟩

theorem not_within_of_childless (childless : document.children root = []) (differs : root ≠ id) :
    ¬ document.Within root id := by
  intro within
  rcases within_iff.mp within with same | ⟨child, listed, -⟩
  · exact differs same
  · rw [childless] at listed
    exact List.not_mem_nil listed

/-- A subtree looks the same where its nodes have the same children. -/
theorem within_congr (same : ∀ id, document.Within root id → later.children id = document.children id) :
    later.Within root id ↔ document.Within root id := by
  constructor
  · intro within
    induction within with
    | refl => exact .refl
    | tail _ step path => exact path.tail (by rwa [Child, ← same _ path])
  · intro within
    induction within with
    | refl => exact .refl
    | tail path step path' => exact path'.tail (by rwa [Child, same _ path])

/-- Nodes with all that is below them: each of their children is listed once, by one of them,
and none of them is below itself. -/
structure Grove (document : Document listener) (region : NodeId → Prop) : Prop where
  closed : ∀ {parent child}, region parent → child ∈ document.children parent → region child
  inside : ∀ {parent child}, region parent → child ∈ document.children parent →
    child.index < document.nodes.size
  unique : ∀ {parent other child}, region parent → region other →
    child ∈ document.children parent → child ∈ document.children other → parent = other
  distinct : ∀ {id}, region id → (document.children id).Nodup
  acyclic : ∀ {id}, region id → ¬ document.Below id id

namespace Grove

variable {region : NodeId → Prop}

theorem descend (grove : document.Grove region) (member : region root)
    (within : document.Within root id) : region id := by
  induction within with
  | refl => exact member
  | tail _ listed above => exact grove.closed above listed

theorem comparable (grove : document.Grove region) {first second : NodeId} (member : region first)
    (member' : region second) (within : document.Within first id)
    (within' : document.Within second id) :
    document.Within first second ∨ document.Within second first := by
  -- going up, there is one way to go from each node of the region
  have up {above below : NodeId} (member : region above) (path : document.Within above below) :
      Relation.ReflTransGen (fun child parent => region parent ∧ document.Child parent child)
        below above := by
    induction path with
    | refl => exact .refl
    | tail path listed upward => exact upward.head ⟨grove.descend member path, listed⟩
  have down {above below : NodeId} (path : Relation.ReflTransGen
      (fun child parent => region parent ∧ document.Child parent child) below above) :
      document.Within above below := by
    induction path with
    | refl => exact .refl
    | tail _ step downward => exact downward.head step.2
  have unique : Relator.RightUnique
      (fun child parent => region parent ∧ document.Child parent child) :=
    fun _ _ _ step step' => grove.unique step.1 step'.1 step.2 step'.2
  exact (Relation.ReflTransGen.total_of_right_unique unique (up member within)
    (up member' within')).symm.imp down down

theorem disjoint (grove : document.Grove region) (member : region parent) {other : NodeId}
    (listed : child ∈ document.children parent) (listed' : other ∈ document.children parent)
    (differs : child ≠ other) (within : document.Within child id) : ¬ document.Within other id := by
  -- if one of them were above the other, it would be above the parent
  have apart {first second : NodeId} (listed : first ∈ document.children parent)
      (listed' : second ∈ document.children parent) (differs : first ≠ second) :
      ¬ document.Within first second := by
    intro path
    obtain same | ⟨between, above, step⟩ := Relation.ReflTransGen.cases_tail path
    · exact differs same.symm
    · have among := grove.descend (grove.closed member listed) above
      rw [grove.unique among member step listed'] at above
      exact grove.acyclic member (Within.below above listed)
  intro within'
  rcases grove.comparable (grove.closed member listed) (grove.closed member listed') within within'
    with path | path
  · exact apart listed listed' differs path
  · exact apart listed' listed (Ne.symm differs) path

theorem pairwise (grove : document.Grove region) (member : region parent) :
    (document.children parent).Pairwise (fun first second =>
      ∀ id, document.Within first id → ¬ document.Within second id) := by
  refine (grove.distinct member).pairwise_of_forall_ne ?_
  intro first listed second listed' differs id within
  exact grove.disjoint member listed listed' differs within

end Grove

namespace Forest

theorem grove (forest : document.Forest) : document.Grove (fun _ => True) where
  closed := fun _ _ => trivial
  inside := fun _ => forest.inside
  unique := fun _ _ => forest.unique
  distinct := fun {id} _ => forest.distinct id
  acyclic := fun {id} _ => forest.acyclic id

theorem comparable (forest : document.Forest) {first second : NodeId}
    (within : document.Within first id) (within' : document.Within second id) :
    document.Within first second ∨ document.Within second first :=
  forest.grove.comparable trivial trivial within within'

theorem disjoint (forest : document.Forest) {other : NodeId}
    (listed : child ∈ document.children parent) (listed' : other ∈ document.children parent)
    (differs : child ≠ other) (within : document.Within child id) : ¬ document.Within other id :=
  forest.grove.disjoint trivial listed listed' differs within

theorem pairwise (forest : document.Forest) (parent : NodeId) :
    (document.children parent).Pairwise (fun first second =>
      ∀ id, document.Within first id → ¬ document.Within second id) :=
  forest.grove.pairwise trivial

end Forest

theorem apart_congr {children : List NodeId}
    (same : ∀ child ∈ children, ∀ other, later.Within child other ↔ document.Within child other)
    (apart : children.Pairwise (fun first second =>
      ∀ id, document.Within first id → ¬ document.Within second id)) :
    children.Pairwise (fun first second =>
      ∀ id, later.Within first id → ¬ later.Within second id) := by
  refine apart.imp_of_mem ?_
  intro first second member member' apart other within
  rw [same first member] at within
  rw [same second member']
  exact apart other within

/-- What is within a node belongs to the arena, siblings in it have nothing below them in
common, and no node of it is below itself. -/
structure Tree (document : Document listener) (root : NodeId) : Prop where
  inside : ∀ {id}, document.Within root id → id.index < document.nodes.size
  apart : ∀ {id}, document.Within root id →
    (document.children id).Pairwise (fun first second =>
      ∀ other, document.Within first other → ¬ document.Within second other)
  acyclic : ∀ {id}, document.Within root id → ¬ document.Below id id

theorem Grove.tree {region : NodeId → Prop} (grove : document.Grove region) (member : region root)
    (inside : root.index < document.nodes.size) : document.Tree root where
  inside := by
    intro id within
    cases within with
    | refl => exact inside
    | tail above listed => exact grove.inside (grove.descend member above) listed
  apart := fun within => grove.pairwise (grove.descend member within)
  acyclic := fun within => grove.acyclic (grove.descend member within)

namespace Tree

theorem descend (tree : document.Tree root) (listed : child ∈ document.children root) :
    document.Tree child where
  inside := fun within => tree.inside (within.below listed).within
  apart := fun within => tree.apart (within.below listed).within
  acyclic := fun within => tree.acyclic (within.below listed).within

theorem congr (tree : document.Tree root) (size : later.nodes.size = document.nodes.size)
    (same : ∀ id, document.Within root id → later.children id = document.children id) :
    later.Tree root := by
  have alike {id : NodeId} (within : document.Within root id) (other : NodeId) :
      later.Within id other ↔ document.Within id other :=
    within_congr fun between path => same between (within.trans path)
  have before {id : NodeId} (within : later.Within root id) : document.Within root id :=
    (alike .refl id).mp within
  refine ⟨?_, ?_, ?_⟩
  · intro id within
    rw [size]
    exact tree.inside (before within)
  · intro id within
    rw [same id (before within)]
    exact apart_congr (fun child listed => alike ((before within).tail listed))
      (tree.apart (before within))
  · intro id within path
    obtain ⟨child, listed, path⟩ := below_iff.mp path
    rw [same id (before within)] at listed
    exact tree.acyclic (before within)
      (((alike ((before within).tail listed) id).mp path).below listed)

end Tree

/-- No path down from the node has as many nodes. -/
def Bounded (document : Document listener) : Nat → NodeId → Prop
  | 0, _ => False
  | depth + 1, id => ∀ child ∈ document.children id, document.Bounded depth child

theorem index_injective : Function.Injective NodeId.index :=
  Function.LeftInverse.injective (g := NodeId.mk) fun _ => rfl

theorem Tree.bounded (tree : document.Tree root) :
    document.Bounded (document.nodes.size + 1) root := by
  -- by induction on the depth, with the nodes of the path down to here
  have path (depth : Nat) (here : NodeId) (enclosing : List NodeId)
      (within : document.Within root here) (distinct : (here :: enclosing).Nodup)
      (above : ∀ other ∈ here :: enclosing,
        other.index < document.nodes.size ∧ document.Within other here)
      (enough : document.nodes.size < depth + (here :: enclosing).length) :
      document.Bounded depth here := by
    induction depth generalizing here enclosing with
    | zero =>
        have short := length_le_of_positions index_injective distinct
          (fun other member => (above other member).1)
        omega
    | succ depth induction =>
        intro child listed
        refine induction child (here :: enclosing) (within.tail listed)
          (List.nodup_cons.mpr ⟨?_, distinct⟩) ?_ ?_
        · intro member
          exact tree.acyclic (within.tail listed)
            (Relation.TransGen.tail' (above child member).2 listed)
        · intro other member
          rcases List.mem_cons.mp member with rfl | member
          · exact ⟨tree.inside (within.tail listed), .refl⟩
          · exact ⟨(above other member).1, (above other member).2.tail listed⟩
        · simp only [List.length_cons] at enough ⊢
          omega
  refine path _ root [] .refl (List.nodup_singleton root) ?_
    (Nat.lt_add_right 1 (Nat.lt_succ_self _))
  intro other member
  cases List.mem_singleton.mp member
  exact ⟨tree.inside .refl, .refl⟩

theorem LiveForest.grove (forest : document.LiveForest) : document.Grove document.Live where
  closed := fun live listed => (forest.child live listed).1
  inside := fun live listed => (forest.child live listed).1.1
  unique := by
    intro parent other child live live' listed listed'
    have named := (forest.child live listed).2
    rw [(forest.child live' listed').2] at named
    exact (Option.some.inj named).symm
  distinct := fun live => forest.distinct live
  acyclic := fun live => forest.acyclic live

theorem LiveForest.tree (forest : document.LiveForest) (live : document.Live root) :
    document.Tree root := forest.grove.tree live live.1

theorem Forest.bounded (forest : document.Forest) (inside : id.index < document.nodes.size) :
    document.Bounded (document.nodes.size + 1) id :=
  (forest.grove.tree trivial inside).bounded

theorem Bounded.mono {depth depth' : Nat} (bounded : document.Bounded depth id)
    (more : depth ≤ depth') : document.Bounded depth' id := by
  induction depth generalizing depth' id with
  | zero => exact bounded.elim
  | succ depth induction =>
      cases depth' with
      | zero => cases more
      | succ depth' =>
          exact fun child listed => induction (bounded child listed) (Nat.le_of_succ_le_succ more)

theorem Bounded.shrink {depth : Nat} (bounded : document.Bounded depth id)
    (fewer : ∀ id, later.children id ⊆ document.children id) : later.Bounded depth id := by
  induction depth generalizing id with
  | zero => exact bounded
  | succ depth induction => exact fun child listed => induction (bounded child (fewer id listed))

namespace WellFormed

theorem forest (wellFormed : document.WellFormed) : document.Forest where
  inside := fun listed => (wellFormed.child listed).1.1
  unique := by
    intro parent other child listed listed'
    have first := (wellFormed.child listed).2
    rw [(wellFormed.child listed').2] at first
    exact (Option.some.inj first).symm
  distinct := wellFormed.distinct
  acyclic := wellFormed.acyclic

theorem liveForest (wellFormed : document.WellFormed) : document.LiveForest where
  reusable := wellFormed.reusable
  child := fun _ listed => wellFormed.child listed
  distinct := fun {id} _ => wellFormed.distinct id
  acyclic := fun {id} _ => wellFormed.acyclic id

theorem live_of_child (wellFormed : document.WellFormed)
    (listed : child ∈ document.children parent) : document.Live parent := by
  refine ⟨lt_of_child listed, fun gone => ?_⟩
  rw [wellFormed.childless parent gone] at listed
  exact List.not_mem_nil listed

theorem live_of_within (wellFormed : document.WellFormed) (live : document.Live root)
    (within : document.Within root id) : document.Live id := by
  induction within with
  | refl => exact live
  | tail _ step _ => exact (wellFormed.child step).1

theorem live_of_below (wellFormed : document.WellFormed) (below : document.Below root id) :
    document.Live id := by
  obtain ⟨child, listed, within⟩ := below_iff.mp below
  exact wellFormed.live_of_within (wellFormed.child listed).1 within

end WellFormed

theorem node_initial (id : NodeId) :
    (initial : Document listener).node id = default ∨
      (initial : Document listener).node id = .fresh (.element "body") := by
  obtain ⟨index⟩ := id
  cases index with
  | zero => exact .inr rfl
  | succ index => exact .inl rfl

theorem wellFormed_initial : (initial : Document listener).WellFormed := by
  have alone (id : NodeId) : (initial : Document listener).children id = [] ∧
      ((initial : Document listener).node id).parent = none := by
    rcases node_initial id with same | same <;>
      exact ⟨by rw [children, same]; rfl, by rw [same]; rfl⟩
  refine ⟨fun _ none => absurd none List.not_mem_nil, List.nodup_nil, fun id _ => (alone id).1, ?_,
    ?_, ?_, ?_, fun _ none => absurd none List.not_mem_nil⟩
  · intro parent child listed
    rw [(alone parent).1] at listed
    cases listed
  · intro id parent _ named
    rw [(alone id).2] at named
    cases named
  · intro id
    rw [(alone id).1]
    exact List.nodup_nil
  · intro id below
    obtain ⟨child, listed, -⟩ := below_iff.mp below
    rw [(alone id).1] at listed
    cases listed

/-- Nodes in use outside the region stay in use and as they are. -/
def KeptOutside (document later : Document listener) (region : NodeId → Prop) : Prop :=
  ∀ id, document.Live id → ¬ region id → later.Live id ∧ later.node id = document.node id

/-- A node that was not in the subtree does not get into it. -/
theorem KeptOutside.within (kept : document.KeptOutside later (document.Within root))
    (wellFormed : document.WellFormed) (wellFormed' : later.WellFormed)
    (live : document.Live id) (within : later.Within root id) : document.Within root id := by
  by_contra outside
  induction within with
  | refl => exact outside .refl
  | @tail above below path step induction =>
      -- its parent is still the one it had, outside the subtree as well
      obtain ⟨-, same⟩ := kept below live outside
      have named := (wellFormed'.child step).2
      rw [same] at named
      have listed := wellFormed.parent live named
      have outside' : ¬ document.Within root above := fun within => outside (within.tail listed)
      exact induction (wellFormed.live_of_child listed) outside'

theorem KeptOutside.trans {final : Document listener} {region region' : NodeId → Prop}
    (first : document.KeptOutside later region) (second : later.KeptOutside final region')
    (inside : ∀ id, document.Live id → region' id → region id) :
    document.KeptOutside final region := by
  intro id live outside
  obtain ⟨live', same⟩ := first id live outside
  obtain ⟨live'', same'⟩ := second id live' (fun inner => outside (inside id live inner))
  exact ⟨live'', same'.trans same⟩

end ReactiveView.Document
