import ReactiveView.Proofs.Editing

/-!
# How long nodes last

A place of the arena becomes another node when a new node is created on it. A node in use
lasts until a text replaces what it is part of. This holds of every document: a text that
is set on a released place leaves one that is no forest, and edits go on from there.
-/

namespace ReactiveView.Document

set_option autoImplicit false

variable {listener : Type} {document later final : Document listener} {id : NodeId}
  {region : NodeId → Prop}

/-- A document after the children of a node have been released. -/
def cleared (document : Document listener) (id : NodeId) : Document listener :=
  (document.children id).foldl (fun document child => (document.detach child).release child)
    document

namespace Edit

/-- An edit makes a new node on a place. -/
def Creates (document : Document listener) (id : NodeId) : Edit listener → Prop
  | create kind => (document.create kind).1 = id
  | setTextContent target text =>
      document.Replaces target ∧ ((document.cleared target).create (.text text)).1 = id
  | _ => False

/-- An edit releases a node: a text takes the place of what it is part of. -/
def Removes (document : Document listener) (id : NodeId) : Edit listener → Prop
  | setTextContent target _ => document.Replaces target ∧ document.Below target id
  | _ => False

end Edit

/-- Nodes of a region may have been released, and no node has new children. -/
structure Receded (document later : Document listener) (region : NodeId → Prop) : Prop where
  size : later.nodes.size = document.nodes.size
  fewer : ∀ id, later.children id ⊆ document.children id
  released : ∀ id ∈ later.released, id ∈ document.released ∨ region id

namespace Receded

theorem refl (document : Document listener) (region : NodeId → Prop) :
    document.Receded document region :=
  ⟨rfl, fun _ => List.Subset.refl _, fun _ member => .inl member⟩

theorem trans (first : document.Receded later region) (second : later.Receded final region) :
    document.Receded final region where
  size := second.size.trans first.size
  fewer := fun id => List.Subset.trans (second.fewer id) (first.fewer id)
  released := by
    intro id member
    rcases second.released id member with before | inside
    · exact first.released id before
    · exact .inr inside

theorem mono {wider : NodeId → Prop} (receded : document.Receded later region)
    (covers : ∀ id, region id → wider id) : document.Receded later wider :=
  ⟨receded.size, receded.fewer, fun id member => (receded.released id member).imp_right (covers id)⟩

theorem live (receded : document.Receded later region) (live : document.Live id)
    (outside : ¬ region id) : later.Live id := by
  refine ⟨receded.size.symm ▸ live.1, ?_⟩
  intro member
  rcases receded.released id member with before | inside
  · exact live.2 before
  · exact outside inside

end Receded

theorem within_of_fewer (fewer : ∀ id, later.children id ⊆ document.children id) {root : NodeId}
    (within : later.Within root id) : document.Within root id :=
  Relation.ReflTransGen.mono (fun above _ step => fewer above step) _ _ within

theorem receded_foldl {step : Document listener → NodeId → Document listener}
    {children : List NodeId}
    (each : ∀ (now : Document listener), ∀ child ∈ children,
      (∀ id, now.children id ⊆ document.children id) → now.Receded (step now child) region)
    (receded : document.Receded later region) :
    document.Receded (children.foldl step later) region := by
  induction children generalizing later with
  | nil => exact receded
  | cons first rest induction =>
      apply induction (fun now child member => each now child (List.mem_cons_of_mem _ member))
      exact receded.trans (each later first List.mem_cons_self receded.fewer)

theorem receded_change {f : Node → Node} (document : Document listener) (id : NodeId)
    (region : NodeId → Prop) (fewer : ∀ node, (f node).children ⊆ node.children) :
    document.Receded (document.change id f) region where
  size := size_change document id f
  fewer := by
    intro other
    rw [children, node_change]
    split
    · next here =>
        rw [here.1]
        exact fewer _
    · exact List.Subset.refl _
  released := fun _ member => .inl member

theorem receded_detach (document : Document listener) (id : NodeId) (region : NodeId → Prop) :
    document.Receded (document.detach id) region := by
  unfold detach
  split
  · exact .refl document region
  · next parent named =>
      refine Receded.trans (receded_change document id region ?_)
        (receded_change _ parent region ?_)
      · exact fun _ => List.Subset.refl _
      · exact fun _ => List.filter_sublist.subset

theorem receded_releaseWithin (depth : Nat) (document : Document listener) (id : NodeId) :
    document.Receded (releaseWithin depth document id) (document.Within id) := by
  induction depth generalizing document id with
  | zero => exact .refl document _
  | succ depth induction =>
      have emptied := receded_change (f := fun node => { node with children := [] }) document id
        (document.Within id) (fun _ => List.nil_subset _)
      have below : document.Receded
          ((document.children id).foldl (releaseWithin depth)
            (document.change id fun node => { node with children := [] }))
          (document.Within id) := by
        refine receded_foldl (fun now child listed fewer => ?_) emptied
        refine (induction now child).mono (fun other within => ?_)
        exact ((within_of_fewer fewer within).below listed).within
      refine ⟨below.size, below.fewer, ?_⟩
      intro other member
      rcases List.mem_cons.mp member with rfl | member
      · exact .inr .refl
      · exact below.released other member

theorem receded_cleared (document : Document listener) (id : NodeId) :
    document.Receded (document.cleared id) (document.Below id) := by
  refine receded_foldl (fun now child listed fewer => ?_) (.refl document _)
  have alone := receded_detach now child (document.Below id)
  refine alone.trans ((receded_releaseWithin _ _ child).mono (fun other within => ?_))
  exact (within_of_fewer fewer (within_of_fewer alone.fewer within)).below listed

/-- A new node is made on a place that is not in use. -/
theorem live_create (live : document.Live id) (kind : NodeKind) :
    (document.create kind).2.Live id ∧ (document.create kind).1 ≠ id := by
  unfold create
  split
  · next new released same =>
      have kept := live.2
      rw [same, List.mem_cons, not_or] at kept
      exact ⟨⟨(size_change document new _).symm ▸ live.1, kept.2⟩, Ne.symm kept.1⟩
  · refine ⟨⟨?_, live.2⟩, ?_⟩
    · rw [Array.size_push]
      exact Nat.lt_succ_of_lt live.1
    · rintro rfl
      exact Nat.lt_irrefl _ live.1

theorem live_append (document : Document listener) (parent child other : NodeId) :
    (document.append parent child).Live other ↔ document.Live other := by
  rw [append, live_change, live_change, live_detach]

theorem live_setTextContent (live : document.Live id) {target : NodeId} (text : String)
    (stays : ¬ (document.Replaces target ∧ document.Below target id)) :
    (document.setTextContent target text).Live id ∧
      ¬ (document.Replaces target ∧ ((document.cleared target).create (.text text)).1 = id) := by
  by_cases replaces : document.Replaces target
  · have kept : (document.cleared target).Live id :=
      (receded_cleared document target).live live (fun below => stays ⟨replaces, below⟩)
    obtain ⟨live', differs⟩ := live_create kept (.text text)
    rw [setTextContent_of_replaces replaces]
    exact ⟨(live_append _ _ _ _).mpr live', fun created => differs created.2⟩
  · obtain ⟨rewritten, same⟩ := setTextContent_of_not_replaces replaces text
    rw [same]
    exact ⟨(live_change document rewritten id).mpr live, fun created => replaces created.1⟩

theorem Edit.lasts (live : document.Live id) (edit : Edit listener)
    (stays : ¬ edit.Removes document id) :
    (edit.make document).Live id ∧ ¬ edit.Creates document id := by
  cases edit with
  | create kind => exact live_create live kind
  | append parent child => exact ⟨(live_append document parent child id).mpr live, not_false⟩
  | setTextContent target text => exact live_setTextContent live text stays
  | setAttribute target name value => exact ⟨(live_change document target id).mpr live, not_false⟩
  | removeAttribute target name => exact ⟨(live_change document target id).mpr live, not_false⟩
  | setProperty target name value => exact ⟨(live_change document target id).mpr live, not_false⟩
  | listen target event code => exact ⟨live, not_false⟩

def after (document : Document listener) (edits : List (Edit listener)) : Document listener :=
  edits.foldl Edit.make document

theorem after_append (document : Document listener) (first second : List (Edit listener)) :
    document.after (first ++ second) = (document.after first).after second :=
  List.foldl_append

/-- Each of the edits has a property, on the document to which it is made. -/
def Throughout (holds : Document listener → Edit listener → Prop) :
    Document listener → List (Edit listener) → Prop
  | _, [] => True
  | document, edit :: rest => holds document edit ∧ Throughout holds (edit.make document) rest

/-- None of the edits releases the node. -/
def Spares (document : Document listener) (id : NodeId) (edits : List (Edit listener)) : Prop :=
  document.Throughout (fun document edit => ¬ edit.Removes document id) edits

/-- None of the edits makes a new node on the place, which so is the same node throughout. -/
def Retains (document : Document listener) (id : NodeId) (edits : List (Edit listener)) : Prop :=
  document.Throughout (fun document edit => ¬ edit.Creates document id) edits

/-- A node in use is the same one, and in use, until an edit releases it. -/
theorem retains_of_spares {edits : List (Edit listener)} (live : document.Live id)
    (spared : document.Spares id edits) :
    (document.after edits).Live id ∧ document.Retains id edits := by
  induction edits generalizing document with
  | nil => exact ⟨live, trivial⟩
  | cons edit rest induction =>
      obtain ⟨live', kept⟩ := edit.lasts live spared.1
      obtain ⟨last, retained⟩ := induction live' spared.2
      exact ⟨last, kept, retained⟩

end ReactiveView.Document
