import ReactiveView.Proofs.Forest

/-!
# Taking nodes out of a document

Releasing a node releases exactly what is within it, and an owner whose children are
released keeps all else. Changes that leave children and parents alone keep the forest.
-/

namespace ReactiveView.Document

set_option autoImplicit false

variable {listener : Type} {document later final : Document listener} {id parent child : NodeId}

section

variable {f : Node → Node}

/-- A place that is not there reads as a node without children. -/
theorem children_change (document : Document listener) (id other : NodeId)
    (same : ∀ node, (f node).children = node.children) :
    (document.change id f).children other = document.children other := by
  simp only [children, node_change]
  split
  · next here => rw [same, here.1]
  · rfl

theorem parent_change (document : Document listener) (id other : NodeId)
    (same : ∀ node, (f node).parent = node.parent) :
    ((document.change id f).node other).parent = (document.node other).parent := by
  rw [node_change]
  split
  · next here => rw [same, here.1]
  · rfl

theorem live_change (document : Document listener) (id other : NodeId) :
    (document.change id f).Live other ↔ document.Live other := by
  rw [Live, size_change]
  rfl

theorem node_change_of_live (live : document.Live id) :
    (document.change id f).node id = f (document.node id) := by
  rw [node_change, if_pos ⟨rfl, live.1⟩]

theorem node_change_of_ne {other : NodeId} (differs : other ≠ id) :
    (document.change id f).node other = document.node other := by
  rw [node_change, if_neg (fun here => differs here.1)]

theorem WellFormed.change (wellFormed : document.WellFormed) (id : NodeId)
    (children : ∀ node, (f node).children = node.children)
    (parent : ∀ node, (f node).parent = node.parent) : (document.change id f).WellFormed where
  reusable := by
    rw [size_change]
    exact wellFormed.reusable
  once := wellFormed.once
  childless := by
    intro other gone
    rw [children_change document id other children]
    exact wellFormed.childless other gone
  child := by
    intro above below listed
    rw [children_change document id above children] at listed
    rw [live_change, parent_change document id below parent]
    exact wellFormed.child listed
  parent := by
    intro below above live named
    rw [live_change] at live
    rw [parent_change document id below parent] at named
    rw [children_change document id above children]
    exact wellFormed.parent live named
  distinct := by
    intro other
    rw [children_change document id other children]
    exact wellFormed.distinct other
  acyclic := by
    intro other path
    apply wellFormed.acyclic other
    refine Relation.TransGen.mono ?_ _ _ path
    intro above below step
    rwa [Child, children_change document id above children] at step
  listened := fun entry member => (live_change document id _).mpr (wellFormed.listened entry member)

end

/-- Some nodes are released, in order: they lose their children and listeners. -/
structure Pruned (document later : Document listener) (gone : List NodeId) : Prop where
  size : later.nodes.size = document.nodes.size
  distinct : gone.Nodup
  lost : ∀ id ∈ gone, later.node id = { document.node id with children := [] }
  kept : ∀ id, id ∉ gone → later.node id = document.node id
  released : later.released = gone ++ document.released
  listeners : later.listeners = document.listeners.filter (fun entry => entry.node ∉ gone)

theorem filter_listeners (entries : List (Registration listener)) (first second : List NodeId) :
    (entries.filter (fun entry => entry.node ∉ first)).filter (fun entry => entry.node ∉ second) =
      entries.filter (fun entry => entry.node ∉ second ++ first) := by
  rw [List.filter_filter]
  apply List.filter_congr
  intro entry _
  simp [not_or]

theorem pruned_refl (document : Document listener) : document.Pruned document [] :=
  ⟨rfl, List.nodup_nil, fun _ gone => absurd gone List.not_mem_nil, fun _ _ => rfl, rfl, by simp⟩

namespace Pruned

variable {gone more : List NodeId}

theorem trans (first : document.Pruned later gone) (second : later.Pruned final more)
    (apart : ∀ id ∈ more, id ∉ gone) : document.Pruned final (more ++ gone) where
  size := second.size.trans first.size
  distinct := List.nodup_append.mpr ⟨second.distinct, first.distinct,
    fun id member other member' same => apart id member (same ▸ member')⟩
  lost := by
    intro id member
    by_cases latter : id ∈ more
    · rw [second.lost id latter, first.kept id (apart id latter)]
    · have former := (List.mem_append.mp member).resolve_left latter
      rw [second.kept id latter, first.lost id former]
  kept := by
    intro id outside
    rw [List.mem_append, not_or] at outside
    rw [second.kept id outside.1, first.kept id outside.2]
  released := by rw [second.released, first.released, List.append_assoc]
  listeners := by rw [second.listeners, first.listeners, filter_listeners]

theorem children_of_mem (pruned : document.Pruned later gone) (member : id ∈ gone) :
    later.children id = [] := by
  rw [children, pruned.lost id member]

theorem children_of_not_mem (pruned : document.Pruned later gone) (member : id ∉ gone) :
    later.children id = document.children id := by
  rw [children, pruned.kept id member, children]

theorem fewer (pruned : document.Pruned later gone) (id : NodeId) :
    (later.children id).Sublist (document.children id) := by
  by_cases member : id ∈ gone
  · rw [pruned.children_of_mem member]
    exact List.nil_sublist _
  · rw [pruned.children_of_not_mem member]

end Pruned

theorem acyclic_of_fewer (fewer : ∀ id, later.children id ⊆ document.children id)
    (acyclic : ∀ id, ¬ document.Below id id) (id : NodeId) : ¬ later.Below id id :=
  fun path => acyclic id (Relation.TransGen.mono (fun above _ step => fewer above step) _ _ path)

theorem WellFormed.childless_of_fewer (wellFormed : document.WellFormed)
    (fewer : (later.children id).Sublist (document.children id)) (gone : id ∈ document.released) :
    later.children id = [] := by
  rw [wellFormed.childless id gone] at fewer
  exact List.sublist_nil.mp fewer

theorem pruned_foldl {depth : Nat} (children : List NodeId)
    (each : ∀ (document : Document listener) (id : NodeId), document.Tree id →
      document.Bounded depth id →
      ∃ gone, (∀ other, other ∈ gone ↔ document.Within id other) ∧
        document.Pruned (releaseWithin depth document id) gone)
    (trees : ∀ child ∈ children, document.Tree child)
    (bounded : ∀ child ∈ children, document.Bounded depth child)
    (apart : children.Pairwise (fun first second =>
      ∀ id, document.Within first id → ¬ document.Within second id)) :
    ∃ gone, (∀ other, other ∈ gone ↔ ∃ child ∈ children, document.Within child other) ∧
      document.Pruned (children.foldl (releaseWithin depth) document) gone := by
  induction children generalizing document with
  | nil => exact ⟨[], by simp, pruned_refl document⟩
  | cons first rest induction =>
      obtain ⟨gone, all, pruned⟩ := each document first (trees first List.mem_cons_self)
        (bounded first List.mem_cons_self)
      rw [List.pairwise_cons] at apart
      have untouched (child : NodeId) (member : child ∈ rest) (other : NodeId)
          (within : document.Within child other) :
          (releaseWithin depth document first).children other = document.children other :=
        pruned.children_of_not_mem fun lost =>
          apart.1 child member other ((all other).mp lost) within
      have same (child : NodeId) (member : child ∈ rest) (other : NodeId) :
          (releaseWithin depth document first).Within child other ↔ document.Within child other :=
        within_congr (untouched child member)
      obtain ⟨more, all', pruned'⟩ := induction
        (fun child member => (trees child (List.mem_cons_of_mem _ member)).congr pruned.size
          (untouched child member))
        (fun child member => (bounded child (List.mem_cons_of_mem _ member)).shrink
          (fun id => (pruned.fewer id).subset))
        (apart_congr same apart.2)
      refine ⟨more ++ gone, ?_, pruned.trans pruned' ?_⟩
      · intro other
        rw [List.mem_append, all', all]
        constructor
        · rintro (⟨child, member, within⟩ | within)
          · exact ⟨child, List.mem_cons_of_mem _ member, (same child member other).mp within⟩
          · exact ⟨first, List.mem_cons_self, within⟩
        · rintro ⟨child, member, within⟩
          rcases List.mem_cons.mp member with rfl | member
          · exact .inr within
          · exact .inl ⟨child, member, (same child member other).mpr within⟩
      · intro other member lost
        obtain ⟨child, among, within⟩ := (all' other).mp member
        exact apart.1 child among other ((all other).mp lost) ((same child among other).mp within)

structure Emptied (document later : Document listener) (id : NodeId) : Prop where
  emptied : later.node id = { document.node id with children := [] }
  others : ∀ other, other ≠ id → later.node other = document.node other

theorem emptied_change (document : Document listener) (id : NodeId) :
    document.Emptied (document.change id fun node => { node with children := [] }) id where
  emptied := by
    rw [node_change]
    split
    · rfl
    · next outside =>
        have absent := node_of_not_lt (fun inside => outside ⟨rfl, inside⟩)
        rw [absent]
        rfl
  others := fun _ differs => node_change_of_ne differs

namespace Emptied

theorem children_of_ne (emptied : document.Emptied later id) {other : NodeId}
    (differs : other ≠ id) : later.children other = document.children other := by
  rw [children, emptied.others other differs, children]

theorem fewer (emptied : document.Emptied later id) (other : NodeId) :
    (later.children other).Sublist (document.children other) := by
  by_cases here : other = id
  · rw [here, children, emptied.emptied]
    exact List.nil_sublist _
  · rw [emptied.children_of_ne here]

end Emptied

/-- Exactly what is within a node is released with it. -/
theorem pruned_releaseWithin (depth : Nat) (document : Document listener) (id : NodeId)
    (tree : document.Tree id) (bounded : document.Bounded depth id) :
    ∃ gone, (∀ other, other ∈ gone ↔ document.Within id other) ∧
      document.Pruned (releaseWithin depth document id) gone := by
  induction depth generalizing document id with
  | zero => exact bounded.elim
  | succ depth induction =>
      have emptied : document.Emptied (document.change id fun node => { node with children := [] })
        id := emptied_change document id
      have untouched (child : NodeId) (listed : child ∈ document.children id) (other : NodeId)
          (within : document.Within child other) :
          (document.change id fun node => { node with children := [] }).children other =
            document.children other :=
        emptied.children_of_ne fun same => by
          rw [same] at within
          exact tree.acyclic .refl (within.below listed)
      have below (child : NodeId) (listed : child ∈ document.children id) (other : NodeId) :
          (document.change id fun node => { node with children := [] }).Within child other ↔
            document.Within child other :=
        within_congr (untouched child listed)
      obtain ⟨gone, all, pruned⟩ := pruned_foldl (document.children id) induction
        (fun child listed => (tree.descend listed).congr (size_change _ _ _)
          (untouched child listed))
        (fun child listed => (bounded child listed).shrink (fun other => (emptied.fewer other).subset))
        (apart_congr below (tree.apart .refl))
      have absent : id ∉ gone := by
        intro member
        obtain ⟨child, listed, within⟩ := (all id).mp member
        exact tree.acyclic .refl (((below child listed id).mp within).below listed)
      refine ⟨id :: gone, ?_, ?_⟩
      · intro other
        rw [List.mem_cons, all, within_iff, eq_comm]
        refine or_congr_right (exists_congr fun child => and_congr_right fun listed => ?_)
        exact below child listed other
      · refine ⟨pruned.size.trans (size_change _ _ _), List.nodup_cons.mpr ⟨absent, pruned.distinct⟩,
          ?_, ?_, ?_, ?_⟩
        · intro other member
          rcases List.mem_cons.mp member with rfl | member
          · exact (pruned.kept other absent).trans emptied.emptied
          · have differs : other ≠ id := fun same => absent (same ▸ member)
            exact (pruned.lost other member).trans (by rw [emptied.others other differs])
        · intro other outside
          rw [List.mem_cons, not_or] at outside
          exact (pruned.kept other outside.2).trans (emptied.others other outside.1)
        · exact congrArg (id :: ·) pruned.released
        · change List.filter (fun entry : Registration listener => entry.node ≠ id) _ = _
          rw [pruned.listeners]
          refine (List.filter_filter ..).trans (List.filter_congr fun entry _ => ?_)
          simp [not_or]

theorem pruned_release (tree : document.Tree id) :
    ∃ gone, (∀ other, other ∈ gone ↔ document.Within id other) ∧
      document.Pruned (document.release id) gone :=
  pruned_releaseWithin _ document id tree tree.bounded

theorem node_detach_of_named (named : (document.node child).parent = some parent)
    (inside : child.index < document.nodes.size) (inside' : parent.index < document.nodes.size)
    (above : parent ≠ child) (other : NodeId) :
    (document.detach child).node other =
      if other = child then { document.node child with parent := none }
      else if other = parent then
        { document.node parent with
          children := (document.children parent).filter (· ≠ child) }
      else document.node other := by
  simp only [detach, named]
  by_cases here : other = child
  · subst here
    rw [if_pos rfl, node_change_of_ne (Ne.symm above), node_change, if_pos ⟨rfl, inside⟩]
  · rw [if_neg here]
    by_cases there : other = parent
    · subst there
      rw [if_pos rfl, node_change, size_change, if_pos ⟨rfl, inside'⟩, node_change_of_ne above,
        children]
    · rw [if_neg there, node_change_of_ne there, node_change_of_ne here]

theorem node_detach (wellFormed : document.WellFormed) (listed : child ∈ document.children parent)
    (other : NodeId) :
    (document.detach child).node other =
      if other = child then { document.node child with parent := none }
      else if other = parent then
        { document.node parent with
          children := (document.children parent).filter (· ≠ child) }
      else document.node other := by
  obtain ⟨live, named⟩ := wellFormed.child listed
  have above : parent ≠ child := fun same => wellFormed.acyclic child (.single (same ▸ listed))
  exact node_detach_of_named named live.1 (lt_of_child listed) above other

theorem released_detach (document : Document listener) (id : NodeId) :
    (document.detach id).released = document.released := by
  unfold detach
  split <;> rfl

theorem listeners_detach (document : Document listener) (id : NodeId) :
    (document.detach id).listeners = document.listeners := by
  unfold detach
  split <;> rfl

theorem size_detach (document : Document listener) (id : NodeId) :
    (document.detach id).nodes.size = document.nodes.size := by
  unfold detach
  split
  · rfl
  · rw [size_change, size_change]

theorem live_detach (document : Document listener) (id other : NodeId) :
    (document.detach id).Live other ↔ document.Live other := by
  rw [Live, size_detach, released_detach, Live]

section Detach

variable (wellFormed : document.WellFormed) (listed : child ∈ document.children parent)

include wellFormed listed

theorem children_detach (other : NodeId) :
    (document.detach child).children other =
      if other = parent then (document.children parent).filter (· ≠ child)
      else document.children other := by
  have above : parent ≠ child := fun same => wellFormed.acyclic child (.single (same ▸ listed))
  rw [children, node_detach wellFormed listed]
  by_cases here : other = child
  · rw [if_pos here, if_neg (fun there => above (there.symm.trans here)), here]
    rfl
  · rw [if_neg here]
    split <;> rfl

theorem fewer_detach (other : NodeId) :
    ((document.detach child).children other).Sublist (document.children other) := by
  rw [children_detach wellFormed listed]
  split
  · next here =>
      rw [here]
      exact List.filter_sublist
  · exact List.Sublist.refl _

theorem WellFormed.detach : (document.detach child).WellFormed where
  reusable := by
    rw [released_detach, size_detach]
    exact wellFormed.reusable
  once := by
    rw [released_detach]
    exact wellFormed.once
  childless := by
    rw [released_detach]
    exact fun other => wellFormed.childless_of_fewer (fewer_detach wellFormed listed other)
  child := by
    intro above below member
    have before := (fewer_detach wellFormed listed above).subset member
    have differs : below ≠ child := by
      rintro rfl
      rw [children_detach wellFormed listed, wellFormed.forest.unique before listed] at member
      simp at member
    rw [live_detach, node_detach wellFormed listed, if_neg differs]
    obtain ⟨live, named⟩ := wellFormed.child before
    refine ⟨live, ?_⟩
    split
    · next there => rw [← there, named]
    · exact named
  parent := by
    intro below above live named
    rw [live_detach] at live
    rw [node_detach wellFormed listed] at named
    by_cases here : below = child
    · rw [if_pos here] at named
      cases named
    · rw [if_neg here] at named
      have named' : (document.node below).parent = some above := by
        split at named
        · next there => rw [there, ← named]
        · exact named
      have before := wellFormed.parent live named'
      rw [children_detach wellFormed listed]
      split
      · next there =>
          rw [there] at before
          exact List.mem_filter.mpr ⟨before, by simpa using here⟩
      · exact before
  distinct := fun other => (fewer_detach wellFormed listed other).nodup (wellFormed.distinct other)
  acyclic := acyclic_of_fewer (fun other => (fewer_detach wellFormed listed other).subset)
      wellFormed.acyclic
  listened := by
    rw [listeners_detach]
    exact fun entry member => (live_detach document _ _).mpr (wellFormed.listened entry member)

end Detach

/-- Nodes are released, with their listeners; an owner keeps the children that are left. -/
structure Stripped (document later : Document listener) (owner : NodeId)
    (gone left : List NodeId) : Prop where
  size : later.nodes.size = document.nodes.size
  distinct : gone.Nodup
  remaining : later.node owner = { document.node owner with children := left }
  lost : ∀ id ∈ gone, later.children id = []
  kept : ∀ id, id ∉ gone → id ≠ owner → later.node id = document.node id
  released : later.released = gone ++ document.released
  listeners : later.listeners = document.listeners.filter (fun entry => entry.node ∉ gone)

/-- The children of an owner, each with all that is within it. They name the owner, and are
apart from it and from one another. -/
structure Brood (document : Document listener) (owner : NodeId) (ids : List NodeId) : Prop where
  inside : owner.index < document.nodes.size
  listed : document.children owner = ids
  named : ∀ child ∈ ids, (document.node child).parent = some owner
  trees : ∀ child ∈ ids, document.Tree child
  apart : ids.Pairwise (fun first second =>
    ∀ id, document.Within first id → ¬ document.Within second id)
  above : ∀ child ∈ ids, ¬ document.Within child owner

section Stripped

variable {owner first : NodeId} {rest gone more left further : List NodeId}

theorem stripped_refl (same : document.children owner = left) :
    document.Stripped document owner [] left where
  size := rfl
  distinct := List.nodup_nil
  remaining := by
    rw [← same, children]
  lost := fun _ gone => absurd gone List.not_mem_nil
  kept := fun _ _ _ => rfl
  released := rfl
  listeners := by simp

namespace Stripped

theorem live (stripped : document.Stripped later owner gone left) (id : NodeId) :
    later.Live id ↔ document.Live id ∧ id ∉ gone := by
  rw [Live, stripped.size, stripped.released, List.mem_append, not_or, Live]
  exact ⟨fun h => ⟨⟨h.1, h.2.2⟩, h.2.1⟩, fun h => ⟨h.1.1, h.2, h.1.2⟩⟩

theorem children_of_not_mem (stripped : document.Stripped later owner gone left)
    (outside : id ∉ gone) (differs : id ≠ owner) : later.children id = document.children id := by
  rw [children, stripped.kept id outside differs, children]

/-- Places that can be used again belong to the arena. -/
theorem reusable (stripped : document.Stripped later owner gone left)
    (before : ∀ id ∈ document.released, id.index < document.nodes.size)
    (inside : ∀ id ∈ gone, id.index < document.nodes.size) :
    ∀ id ∈ later.released, id.index < later.nodes.size := by
  rw [stripped.released, stripped.size]
  intro id member
  rcases List.mem_append.mp member with lost | free
  · exact inside id lost
  · exact before id free

theorem once (stripped : document.Stripped later owner gone left) (before : document.released.Nodup)
    (live : ∀ id ∈ gone, document.Live id) : later.released.Nodup := by
  rw [stripped.released, List.nodup_append]
  refine ⟨stripped.distinct, before, ?_⟩
  rintro id lost _ free rfl
  exact (live id lost).2 free

theorem fewer (stripped : document.Stripped later owner gone []) (id : NodeId) :
    (later.children id).Sublist (document.children id) := by
  by_cases lost : id ∈ gone
  · rw [stripped.lost id lost]
    exact List.nil_sublist _
  · by_cases here : id = owner
    · rw [here, children, stripped.remaining]
      exact List.nil_sublist _
    · rw [stripped.children_of_not_mem lost here]

theorem trans (first : document.Stripped later owner gone left)
    (second : later.Stripped final owner more further) (apart : ∀ id ∈ more, id ∉ gone)
    (absent : owner ∉ gone) : document.Stripped final owner (more ++ gone) further where
  size := second.size.trans first.size
  distinct := List.nodup_append.mpr ⟨second.distinct, first.distinct,
    fun id member other member' same => apart id member (same ▸ member')⟩
  remaining := by rw [second.remaining, first.remaining]
  lost := by
    intro id member
    by_cases latter : id ∈ more
    · exact second.lost id latter
    · have former := (List.mem_append.mp member).resolve_left latter
      have differs : id ≠ owner := fun same => absent (same ▸ former)
      rw [second.children_of_not_mem latter differs, first.lost id former]
  kept := by
    intro id outside differs
    rw [List.mem_append, not_or] at outside
    rw [second.kept id outside.1 differs, first.kept id outside.2 differs]
  released := by rw [second.released, first.released, List.append_assoc]
  listeners := by rw [second.listeners, first.listeners, filter_listeners]

theorem parent_of_not_mem (stripped : document.Stripped later owner gone left)
    (outside : id ∉ gone) : (later.node id).parent = (document.node id).parent := by
  by_cases here : id = owner
  · rw [here, stripped.remaining]
  · rw [stripped.kept id outside here]

end Stripped

theorem stripped_child (brood : document.Brood owner (first :: rest)) :
    ∃ gone, (∀ id, id ∈ gone ↔ document.Within first id) ∧
      document.Stripped ((document.detach first).release first) owner gone rest := by
  have member : first ∈ first :: rest := List.mem_cons_self
  have above : ¬ document.Within first owner := brood.above first member
  have differs : owner ≠ first := fun same => above (same ▸ .refl)
  have tree := brood.trees first member
  have node := node_detach_of_named (brood.named first member) (tree.inside .refl) brood.inside
    differs
  have untouched (id : NodeId) (within : document.Within first id) :
      (document.detach first).children id = document.children id := by
    have other : id ≠ owner := fun same => above (same ▸ within)
    rw [children, node, if_neg other, children]
    split
    · next here => rw [here]
    · rfl
  obtain ⟨gone, all, pruned⟩ := pruned_release (tree.congr (size_detach document first) untouched)
  have all' (id : NodeId) : id ∈ gone ↔ document.Within first id :=
    (all id).trans (within_congr untouched)
  have left : (document.children owner).filter (· ≠ first) = rest := by
    rw [brood.listed, List.filter_cons_of_neg (by simp), List.filter_eq_self]
    intro other among
    apply decide_eq_true
    rintro rfl
    exact (List.pairwise_cons.mp brood.apart).1 other among other .refl .refl
  have absent : owner ∉ gone := fun lost => above ((all' owner).mp lost)
  refine ⟨gone, all', pruned.size.trans (size_detach document first), pruned.distinct, ?_,
    fun id lost => pruned.children_of_mem lost, ?_, ?_, ?_⟩
  · rw [pruned.kept owner absent, node, if_neg differs, if_pos rfl, left]
  · intro id outside other
    have differs' : id ≠ first := fun same => outside ((all' id).mpr (same ▸ .refl))
    rw [pruned.kept id outside, node, if_neg differs', if_neg other]
  · rw [pruned.released, released_detach]
  · rw [pruned.listeners, listeners_detach]

theorem Brood.next (brood : document.Brood owner (first :: rest))
    (all : ∀ id, id ∈ gone ↔ document.Within first id)
    (stripped : document.Stripped later owner gone rest) :
    later.Brood owner rest ∧
      ∀ child ∈ rest, ∀ id, later.Within child id ↔ document.Within child id := by
  obtain ⟨beside, apart⟩ := List.pairwise_cons.mp brood.apart
  have kept (child : NodeId) (member : child ∈ rest) (id : NodeId)
      (within : document.Within child id) : later.node id = document.node id := by
    apply stripped.kept id
    · exact fun lost => beside child member id ((all id).mp lost) within
    · rintro rfl
      exact brood.above child (List.mem_cons_of_mem _ member) within
  have untouched (child : NodeId) (member : child ∈ rest) (id : NodeId)
      (within : document.Within child id) : later.children id = document.children id := by
    rw [children, kept child member id within, children]
  have same (child : NodeId) (member : child ∈ rest) (id : NodeId) :
      later.Within child id ↔ document.Within child id :=
    within_congr (untouched child member)
  refine ⟨⟨?_, ?_, ?_, ?_, apart_congr same apart, ?_⟩, same⟩
  · rw [stripped.size]
    exact brood.inside
  · rw [children, stripped.remaining]
  · intro child member
    rw [kept child member child .refl]
    exact brood.named child (List.mem_cons_of_mem _ member)
  · exact fun child member => (brood.trees child (List.mem_cons_of_mem _ member)).congr
      stripped.size (untouched child member)
  · intro child member within
    exact brood.above child (List.mem_cons_of_mem _ member) ((same child member owner).mp within)

/-- Releasing the children one after the other takes exactly what is below the owner. -/
theorem stripped_foldl {ids : List NodeId} (brood : document.Brood owner ids) :
    ∃ gone, (∀ id, id ∈ gone ↔ document.Below owner id) ∧
      document.Stripped
        (ids.foldl (fun document child => (document.detach child).release child) document)
        owner gone [] := by
  simp only [below_iff, brood.listed]
  induction ids generalizing document with
  | nil => exact ⟨[], by simp, stripped_refl brood.listed⟩
  | cons first rest induction =>
      obtain ⟨gone, all, stripped⟩ := stripped_child brood
      obtain ⟨brood', same⟩ := brood.next all stripped
      obtain ⟨more, all', stripped'⟩ := induction brood'
      have beside := (List.pairwise_cons.mp brood.apart).1
      refine ⟨more ++ gone, ?_, stripped.trans stripped' ?_ ?_⟩
      · intro id
        rw [List.mem_append, all', all, or_comm, List.exists_mem_cons_iff]
        refine or_congr_right (exists_congr fun child => and_congr_right fun member => ?_)
        exact same child member id
      · intro id member lost
        obtain ⟨child, among, within⟩ := (all' id).mp member
        exact beside child among id ((all id).mp lost) ((same child among id).mp within)
      · exact fun lost => brood.above first List.mem_cons_self ((all owner).mp lost)

theorem Tree.brood (tree : document.Tree owner)
    (named : ∀ child ∈ document.children owner, (document.node child).parent = some owner) :
    document.Brood owner (document.children owner) where
  inside := tree.inside .refl
  listed := rfl
  named := named
  trees := fun _ listed => tree.descend listed
  apart := tree.apart .refl
  above := fun _ listed within => tree.acyclic .refl (within.below listed)

/-- What is left of a forest is one, once all that is below a node has been released. -/
theorem Stripped.wellFormed (stripped : document.Stripped later owner gone [])
    (wellFormed : document.WellFormed) (all : ∀ id, id ∈ gone ↔ document.Below owner id) :
    later.WellFormed where
  reusable := stripped.reusable wellFormed.reusable fun id lost =>
    (wellFormed.live_of_below ((all id).mp lost)).1
  once := stripped.once wellFormed.once fun id lost =>
    wellFormed.live_of_below ((all id).mp lost)
  childless := by
    rw [stripped.released]
    intro id member
    by_cases lost : id ∈ gone
    · exact stripped.lost id lost
    · exact wellFormed.childless_of_fewer (stripped.fewer id)
        ((List.mem_append.mp member).resolve_left lost)
  child := by
    intro above below listed
    have listed' := (stripped.fewer above).subset listed
    have outside : below ∉ gone := by
      intro lost
      obtain ⟨between, path, step⟩ := Relation.TransGen.tail'_iff.mp ((all below).mp lost)
      rw [wellFormed.forest.unique step listed'] at path
      have empty : later.children above = [] := by
        rcases within_iff_below.mp path with same | path
        · rw [← same, children, stripped.remaining]
        · exact stripped.lost above ((all above).mpr path)
      rw [empty] at listed
      exact List.not_mem_nil listed
    obtain ⟨live, named⟩ := wellFormed.child listed'
    rw [stripped.live, stripped.parent_of_not_mem outside]
    exact ⟨⟨live, outside⟩, named⟩
  parent := by
    intro below above present named
    obtain ⟨live, outside⟩ := (stripped.live below).mp present
    rw [stripped.parent_of_not_mem outside] at named
    have listed := wellFormed.parent live named
    have lost (within : document.Within owner above) : False :=
      outside ((all below).mpr (Relation.TransGen.tail' within listed))
    rwa [stripped.children_of_not_mem (fun member => lost ((all above).mp member).within)
      (fun same => lost (same ▸ .refl))]
  distinct := fun id => (stripped.fewer id).nodup (wellFormed.distinct id)
  acyclic := acyclic_of_fewer (fun id => (stripped.fewer id).subset) wellFormed.acyclic
  listened := by
    rw [stripped.listeners]
    intro entry member
    obtain ⟨before, outside⟩ := List.mem_filter.mp member
    exact (stripped.live _).mpr ⟨wellFormed.listened entry before, by simpa using outside⟩

end Stripped

end ReactiveView.Document
