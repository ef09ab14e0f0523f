import ReactiveView.Proofs.Replacing

/-!
# Documents under edits

Whatever callers build, in whatever order: as long as they name nodes in use and put none
below itself, the document stays a forest, released places belong to nobody, and the arena
is no longer than the most nodes that have been in use at one time.
-/

namespace ReactiveView.Document

set_option autoImplicit false

variable {listener : Type} {document : Document listener} {most : Nat} {id parent child : NodeId}

inductive Edit (listener : Type) where
  | create (kind : NodeKind)
  | append (parent child : NodeId)
  | setTextContent (id : NodeId) (text : String)
  | setAttribute (id : NodeId) (name value : String)
  | removeAttribute (id : NodeId) (name : String)
  | setProperty (id : NodeId) (name : String) (value : Value)
  | listen (id : NodeId) (event : String) (code : listener)

namespace Edit

def make (document : Document listener) : Edit listener → Document listener
  | create kind => (document.create kind).2
  | append parent child => document.append parent child
  | setTextContent id text => document.setTextContent id text
  | setAttribute id name value => document.setAttribute id name value
  | removeAttribute id name => document.removeAttribute id name
  | setProperty id name value => document.setProperty id name value
  | listen id event code => document.listen id event code

/-- What callers promise: they name nodes in use, leave the body where it is, and append
no node to itself or to what is below it. -/
def Permitted (document : Document listener) : Edit listener → Prop
  | create _ => True
  | append parent child =>
      document.Live parent ∧ document.Live child ∧ child ≠ body ∧ ¬ document.Within child parent
  | setTextContent id _ | setAttribute id _ _ | removeAttribute id _ => document.Live id
  | setProperty id _ _ | listen id _ _ => document.Live id

end Edit

/-- A document that permitted edits lead to, with the most nodes in use at any time on the
way. -/
inductive Built : Document listener → Nat → Prop
  | initial : Built initial (initial : Document listener).nodeCount
  | edit {document : Document listener} {most : Nat} (edit : Edit listener)
      (built : Built document most) (permitted : edit.Permitted document) :
      Built (edit.make document) (max most (edit.make document).nodeCount)

/-- The body is in use and on top, and the arena is as long as its fullest moment. -/
structure Kept (document : Document listener) (most : Nat) : Prop where
  wellFormed : document.WellFormed
  live : document.Live body
  top : (document.node body).parent = none
  full : document.nodes.size = most

theorem nodeCount_le_size (document : Document listener) :
    document.nodeCount ≤ document.nodes.size := Nat.sub_le _ _

/-- Nothing is above the body. -/
theorem Kept.eq_body (kept : document.Kept most) (within : document.Within id body) :
    id = body := by
  rcases Relation.ReflTransGen.cases_tail within with same | ⟨above, -, step⟩
  · exact same.symm
  · have named := (kept.wellFormed.child step).2
    rw [kept.top] at named
    cases named

theorem kept_initial : (initial : Document listener).Kept (initial : Document listener).nodeCount where
  wellFormed := wellFormed_initial
  live := ⟨Nat.zero_lt_one, List.not_mem_nil⟩
  top := rfl
  full := rfl

theorem Kept.same_size {later : Document listener} (kept : document.Kept most)
    (wellFormed : later.WellFormed) (live : later.Live body)
    (top : (later.node body).parent = none)
    (size : later.nodes.size = document.nodes.size) :
    later.Kept (max most later.nodeCount) := by
  have bound := nodeCount_le_size later
  have full := kept.full
  exact ⟨wellFormed, live, top, by omega⟩

theorem Kept.create (kept : document.Kept most) (kind : NodeKind) :
    (document.create kind).2.Kept (max most (document.create kind).2.nodeCount) := by
  have created := created_create kept.wellFormed.reusable kind
  have top : ((document.create kind).2.node body).parent = none := by
    rw [created.others body (created.differs kept.live)]
    exact kept.top
  refine ⟨created.wellFormed kept.wellFormed, created.stays kept.live, top, ?_⟩
  rw [← kept.full]
  exact full_create document kind

theorem Kept.change {f : Node → Node} (kept : document.Kept most) (id : NodeId)
    (children : ∀ node, (f node).children = node.children)
    (parent : ∀ node, (f node).parent = node.parent) :
    (document.change id f).Kept (max most (document.change id f).nodeCount) := by
  have top : ((document.change id f).node body).parent = none := by
    rw [parent_change document id body parent]
    exact kept.top
  exact kept.same_size (kept.wellFormed.change id children parent)
    ((live_change document id body).mpr kept.live) top (size_change document id f)

theorem WellFormed.listen (wellFormed : document.WellFormed) (live : document.Live id)
    (event : String) (code : listener) : (document.listen id event code).WellFormed where
  reusable := wellFormed.reusable
  once := wellFormed.once
  childless := wellFormed.childless
  child := wellFormed.child
  parent := wellFormed.parent
  distinct := wellFormed.distinct
  acyclic := wellFormed.acyclic
  listened := by
    intro entry member
    rcases List.mem_append.mp member with before | new
    · exact wellFormed.listened entry before
    · rw [List.mem_singleton.mp new]
      exact live

/-- A node that has been taken from its parent, if it had one, stands alone, and all else
is where it was. -/
structure Detached (document later : Document listener) (child : NodeId) : Prop where
  wellFormed : later.WellFormed
  alone : (later.node child).parent = none
  fewer : ∀ id, (later.children id).Sublist (document.children id)
  parents : ∀ id, id ≠ child → (later.node id).parent = (document.node id).parent
  append : ∀ parent, document.append parent child = later.append parent child

theorem detached_detach (wellFormed : document.WellFormed) (live : document.Live child) :
    document.Detached (document.detach child) child := by
  cases named : (document.node child).parent with
  | none =>
      have same : document.detach child = document := by
        simp only [detach, named]
      rw [same]
      exact ⟨wellFormed, named, fun _ => List.Sublist.refl _, fun _ _ => rfl, fun _ => rfl⟩
  | some parent =>
      have listed := wellFormed.parent live named
      have alone : ((document.detach child).node child).parent = none := by
        rw [node_detach wellFormed listed, if_pos rfl]
      have again : (document.detach child).detach child = document.detach child := by
        rw [detach, alone]
      have parents (id : NodeId) (differs : id ≠ child) :
          ((document.detach child).node id).parent = (document.node id).parent := by
        rw [node_detach wellFormed listed, if_neg differs]
        split
        · next here => rw [here]
        · rfl
      have append (above : NodeId) :
          document.append above child = (document.detach child).append above child := by
        rw [Document.append, Document.append, again]
      exact ⟨wellFormed.detach listed, alone, fewer_detach wellFormed listed, parents, append⟩

theorem Kept.append (kept : document.Kept most) (live : document.Live parent)
    (live' : document.Live child) (below : child ≠ body) (apart : ¬ document.Within child parent) :
    (document.append parent child).Kept (max most (document.append parent child).nodeCount) := by
  have detached := detached_detach kept.wellFormed live'
  have stays (id : NodeId) : (document.detach child).Live id ↔ document.Live id :=
    live_detach document child id
  have apart' : ¬ (document.detach child).Within child parent := by
    intro within
    exact apart (Relation.ReflTransGen.mono (fun id _ step => (detached.fewer id).subset step)
      _ _ within)
  have differs : parent ≠ child := fun same => apart (same ▸ .refl)
  have appended := appended_append ((stays parent).mpr live).1 ((stays child).mpr live').1 differs
    detached.alone
  rw [detached.append]
  have top : (((document.detach child).append parent child).node body).parent = none := by
    have before := (detached.parents body below.symm).trans kept.top
    by_cases here : body = parent
    · rw [here, appended.above, ← here]
      exact before
    · rw [appended.others body here below.symm]
      exact before
  have live'' : ((document.detach child).append parent child).Live body :=
    (appended.live body).mpr ((stays body).mpr kept.live)
  have wellFormed := appended.wellFormed detached.wellFormed ((stays parent).mpr live)
    ((stays child).mpr live') apart' detached.alone
  exact kept.same_size wellFormed live'' top (appended.size.trans (size_detach document child))

theorem size_setTextContent (wellFormed : document.WellFormed) (live : document.Live id)
    (text : String) :
    (document.setTextContent id text).nodes.size =
      max document.nodes.size (document.setTextContent id text).nodeCount := by
  by_cases replaces : document.Replaces id
  · obtain ⟨cleared, between, new, gone, replaced⟩ := replaced_replace wellFormed.liveForest live text
    have full := replaced.full
    rw [setTextContent_of_replaces replaces, nodeCount, replaced.appended.size,
      replaced.appended.released]
    exact full
  · obtain ⟨target, same⟩ := setTextContent_of_not_replaces replaces text
    have size := size_change document target (fun node => { node with kind := node.kind.withContent text })
    have bound := nodeCount_le_size (document.setTextContent id text)
    rw [same] at bound ⊢
    change (document.rewrite target text).nodes.size = document.nodes.size at size
    omega

theorem Kept.setTextContent (kept : document.Kept most) (live : document.Live id)
    (text : String) :
    (document.setTextContent id text).Kept
      (max most (document.setTextContent id text).nodeCount) := by
  have wellFormed := kept.wellFormed.setTextContent live text
  have retexted := retexted_setTextContent kept.wellFormed.liveForest live text
  have size := size_setTextContent kept.wellFormed live text
  rw [kept.full] at size
  by_cases here : id = body
  · refine ⟨wellFormed, here ▸ retexted.live, ?_, size⟩
    rw [← here, retexted.parent, here]
    exact kept.top
  · have outside : ¬ document.Within id body := fun within => here (kept.eq_body within)
    obtain ⟨live', same⟩ := retexted.kept body kept.live outside
    refine ⟨wellFormed, live', ?_, size⟩
    rw [same]
    exact kept.top

theorem Kept.edit (kept : document.Kept most) (edit : Edit listener)
    (permitted : edit.Permitted document) :
    (edit.make document).Kept (max most (edit.make document).nodeCount) := by
  cases edit with
  | create kind => exact kept.create kind
  | append parent child =>
      obtain ⟨live, live', below, apart⟩ := permitted
      exact kept.append live live' below apart
  | setTextContent id text => exact kept.setTextContent permitted text
  | setAttribute id name value => exact kept.change id (fun _ => rfl) (fun _ => rfl)
  | removeAttribute id name => exact kept.change id (fun _ => rfl) (fun _ => rfl)
  | setProperty id name value => exact kept.change id (fun _ => rfl) (fun _ => rfl)
  | listen id event code =>
      exact kept.same_size (kept.wellFormed.listen permitted event code) kept.live kept.top rfl

theorem Built.kept (built : Built document most) : document.Kept most := by
  induction built with
  | initial => exact kept_initial
  | edit edit _ permitted induction => exact induction.edit edit permitted

/-- The nodes of the arena that are in use. -/
def liveNodes (document : Document listener) : List NodeId :=
  ((List.range document.nodes.size).map NodeId.mk).filter (· ∉ document.released)

theorem mem_liveNodes : id ∈ document.liveNodes ↔ document.Live id := by
  simp only [liveNodes, List.mem_filter, List.mem_map, List.mem_range, decide_eq_true_eq, Live]
  refine and_congr_left fun _ => ?_
  constructor
  · rintro ⟨index, bound, rfl⟩
    exact bound
  · exact fun bound => ⟨id.index, bound, rfl⟩

/-- A document as callers find it between two edits. -/
structure Sound (document : Document listener) (most : Nat) : Prop where
  linked : ∀ parent child, document.Live parent → document.Live child →
    (child ∈ document.children parent ↔ (document.node child).parent = some parent)
  distinct : ∀ id, (document.children id).Nodup
  acyclic : ∀ id, ¬ document.Below id id
  once : document.released.Nodup
  places : ∀ id ∈ document.released, id.index < document.nodes.size
  unused : ∀ id ∈ document.released, id ≠ body ∧
    (∀ other, document.Live other →
      id ∉ document.children other ∧ (document.node other).parent ≠ some id) ∧
    ∀ entry ∈ document.listeners, entry.node ≠ id
  count : document.nodeCount = document.liveNodes.length
  full : document.nodes.size = most
  /-- A new node is not one in use, and has nothing of a node that was there before. -/
  created : ∀ kind new later, document.create kind = (new, later) →
    ¬ document.Live new ∧ later.Live new ∧ later.node new = .fresh kind ∧
    ∀ entry ∈ later.listeners, entry.node ≠ new
  /-- Neither has a text that replaces the children of an element. -/
  replaced : ∀ id text, document.Live id → document.Replaces id →
    ∃ new, (document.setTextContent id text).children id = [new] ∧
      (document.setTextContent id text).node new =
        { Node.fresh (.text text) with parent := some id } ∧
      ∀ entry ∈ (document.setTextContent id text).listeners, entry.node ≠ new

theorem Created.unheard {later : Document listener} {new : NodeId} {kind : NodeKind}
    (created : document.Created later new kind) (wellFormed : document.WellFormed) :
    ∀ entry ∈ later.listeners, entry.node ≠ new := by
  rw [created.listeners]
  intro entry member
  exact created.differs (wellFormed.listened entry member)

end ReactiveView.Document
