import ReactiveView.Proofs.Releasing

/-!
# What becomes of a document when a text is replaced

A text that is set within an element leaves it with one text child, made new or there
before. What is released was below the element, and all that is not within it stays.
-/

namespace ReactiveView.Document

set_option autoImplicit false

variable {listener : Type} {document later final : Document listener}

/-- A place that was not in use becomes a node that stands alone. -/
structure Created (document later : Document listener) (new : NodeId) (kind : NodeKind) :
    Prop where
  unused : ¬ document.Live new
  inside : new.index < later.nodes.size
  size : document.nodes.size ≤ later.nodes.size
  released : later.released = document.released.tail
  live : ∀ id, id ≠ new → (later.Live id ↔ document.Live id)
  present : document.released.Nodup → later.Live new
  fresh : later.node new = .fresh kind
  others : ∀ id, id ≠ new → later.node id = document.node id
  listeners : later.listeners = document.listeners

theorem created_create (reusable : ∀ id ∈ document.released, id.index < document.nodes.size)
    (kind : NodeKind) : document.Created (document.create kind).2 (document.create kind).1 kind := by
  have fresh := node_create reusable kind
  unfold create at fresh ⊢
  split at fresh
  · next new released same =>
      have inside : new.index < document.nodes.size := reusable new (same ▸ List.mem_cons_self)
      have size := size_change document new (fun _ => .fresh kind)
      refine ⟨fun live => live.2 (same ▸ List.mem_cons_self), size.symm ▸ inside,
        Nat.le_of_eq size.symm, ?_, ?_, ?_, fresh, fun id => node_change_of_ne, rfl⟩
      · rw [same, List.tail_cons]
      · intro id differs
        change id.index < (document.change new fun _ => .fresh kind).nodes.size ∧ id ∉ released ↔ _
        rw [size, Live, same, List.mem_cons, not_or, and_congr_right_iff]
        exact fun _ => (and_iff_right differs).symm
      · intro once
        rw [same, List.nodup_cons] at once
        exact ⟨size.symm ▸ inside, once.1⟩
  · next none =>
      have elsewhere {id : NodeId} (differs : id ≠ ⟨document.nodes.size⟩) :
          id.index ≠ document.nodes.size := fun same => differs (congrArg NodeId.mk same)
      have inside : document.nodes.size < (document.nodes.push (.fresh kind)).size := by
        rw [Array.size_push]
        exact Nat.lt_succ_self _
      refine ⟨fun live => Nat.lt_irrefl _ live.1, inside, ?_, ?_, ?_, fun _ => ⟨inside, ?_⟩, fresh,
        ?_, rfl⟩
      · rw [Array.size_push]
        exact Nat.le_succ _
      · rw [none, List.tail_nil]
      · intro id differs
        simp only [Live, none, Array.size_push, List.not_mem_nil, not_false_eq_true, and_true]
        have other := elsewhere differs
        omega
      · simp [none]
      · intro id differs
        simp only [node, Array.getElem?_push, if_neg (elsewhere differs)]

theorem full_create (document : Document listener) (kind : NodeKind) :
    (document.create kind).2.nodes.size =
      max document.nodes.size (document.create kind).2.nodeCount := by
  have size := size_create document kind
  unfold create at size ⊢
  unfold nodeCount
  split at size
  · next new released same =>
      rw [same, if_neg (List.cons_ne_nil new released)] at size
      omega
  · next none =>
      simp only [none, List.length_nil, Nat.sub_zero, Array.size_push]
      omega

namespace Created

variable {new : NodeId} {kind : NodeKind}

theorem no_children (created : document.Created later new kind) : later.children new = [] := by
  rw [children, created.fresh]
  rfl

theorem alone (created : document.Created later new kind) : (later.node new).parent = none := by
  rw [created.fresh]
  rfl

theorem differs (created : document.Created later new kind) {id : NodeId} (live : document.Live id) :
    id ≠ new := fun same => created.unused (same ▸ live)

theorem stays (created : document.Created later new kind) {id : NodeId} (live : document.Live id) :
    later.Live id := (created.live id (created.differs live)).mpr live

theorem children_of_ne (created : document.Created later new kind) {id : NodeId}
    (differs : id ≠ new) : later.children id = document.children id := by
  rw [children, created.others id differs, children]

theorem fewer (created : document.Created later new kind) (id : NodeId) :
    (later.children id).Sublist (document.children id) := by
  by_cases here : id = new
  · rw [here, created.no_children]
    exact List.nil_sublist _
  · rw [created.children_of_ne here]

theorem remain (created : document.Created later new kind) :
    later.released.Sublist document.released := by
  rw [created.released]
  exact List.tail_sublist _

theorem wellFormed (created : document.Created later new kind) (wellFormed : document.WellFormed) :
    later.WellFormed where
  reusable := fun id gone => Nat.lt_of_lt_of_le
    (wellFormed.reusable id (created.remain.subset gone)) created.size
  once := created.remain.nodup wellFormed.once
  childless := fun id gone =>
    wellFormed.childless_of_fewer (created.fewer id) (created.remain.subset gone)
  child := by
    intro above below listed
    obtain ⟨live, named⟩ := wellFormed.child ((created.fewer above).subset listed)
    exact ⟨created.stays live, (created.others below (created.differs live)).symm ▸ named⟩
  parent := by
    intro below above live named
    by_cases here : below = new
    · rw [here, created.fresh] at named
      cases named
    · rw [created.others below here] at named
      have listed := wellFormed.parent ((created.live below here).mp live) named
      rwa [created.children_of_ne (created.differs (wellFormed.live_of_child listed))]
  distinct := fun id => (created.fewer id).nodup (wellFormed.distinct id)
  acyclic := acyclic_of_fewer (fun id => (created.fewer id).subset) wellFormed.acyclic
  listened := by
    rw [created.listeners]
    exact fun entry member => created.stays (wellFormed.listened entry member)

end Created

/-- A node that stands alone becomes the last child of an owner. -/
structure Appended (document later : Document listener) (owner leaf : NodeId) : Prop where
  above : later.node owner =
    { document.node owner with children := document.children owner ++ [leaf] }
  below : later.node leaf = { document.node leaf with parent := some owner }
  others : ∀ id, id ≠ owner → id ≠ leaf → later.node id = document.node id
  live : ∀ id, later.Live id ↔ document.Live id
  size : later.nodes.size = document.nodes.size
  released : later.released = document.released
  listeners : later.listeners = document.listeners

theorem appended_append {owner leaf : NodeId} (inside : owner.index < document.nodes.size)
    (inside' : leaf.index < document.nodes.size) (differs : owner ≠ leaf)
    (alone : (document.node leaf).parent = none) :
    document.Appended (document.append owner leaf) owner leaf := by
  have stays : document.detach leaf = document := by
    simp only [detach, alone]
  rw [Document.append, stays]
  refine ⟨?_, ?_, ?_, ?_, ?_, rfl, rfl⟩
  · rw [node_change, size_change, if_pos ⟨rfl, inside⟩, node_change_of_ne differs, children]
  · rw [node_change_of_ne differs.symm, node_change, if_pos ⟨rfl, inside'⟩]
  · intro id other other'
    rw [node_change_of_ne other, node_change_of_ne other']
  · intro id
    rw [live_change, live_change]
  · rw [size_change, size_change]

theorem WellFormed.not_mem_of_alone (wellFormed : document.WellFormed) {leaf above : NodeId}
    (alone : (document.node leaf).parent = none) : leaf ∉ document.children above := by
  intro member
  rw [(wellFormed.child member).2] at alone
  cases alone

namespace Appended

variable {owner leaf : NodeId}

theorem children (appended : document.Appended later owner leaf) (id : NodeId) :
    later.children id =
      if id = owner then document.children owner ++ [leaf] else document.children id := by
  by_cases here : id = owner
  · rw [if_pos here, here, Document.children, appended.above]
  · rw [if_neg here]
    by_cases there : id = leaf
    · rw [there, Document.children, appended.below, Document.children]
    · rw [Document.children, appended.others id here there, Document.children]

theorem child_cases (appended : document.Appended later owner leaf) {above below : NodeId}
    (step : later.Child above below) :
    document.Child above below ∨ above = owner ∧ below = leaf := by
  rw [Child, appended.children] at step
  split at step
  · next here =>
      rcases List.mem_append.mp step with before | new
      · exact .inl (here ▸ before)
      · exact .inr ⟨here, List.mem_singleton.mp new⟩
  · exact .inl step

/-- A path that was not there before goes through the owner to what is within the leaf. -/
theorem below_cases (appended : document.Appended later owner leaf)
    (apart : ¬ document.Within leaf owner) {first last : NodeId}
    (path : later.Below first last) :
    document.Below first last ∨ document.Within first owner ∧ document.Within leaf last := by
  induction path with
  | single step =>
      rcases appended.child_cases step with before | ⟨rfl, rfl⟩
      · exact .inl (.single before)
      · exact .inr ⟨.refl, .refl⟩
  | tail path step induction =>
      rcases appended.child_cases step with before | ⟨rfl, rfl⟩
      · rcases induction with old | ⟨above, within⟩
        · exact .inl (old.tail before)
        · exact .inr ⟨above, within.tail before⟩
      · rcases induction with old | ⟨above, within⟩
        · exact .inr ⟨old.within, .refl⟩
        · exact absurd within apart

theorem parent_of_ne (appended : document.Appended later owner leaf) {id : NodeId}
    (differs : id ≠ leaf) : (later.node id).parent = (document.node id).parent := by
  by_cases here : id = owner
  · rw [here, appended.above]
  · rw [appended.others id here differs]

theorem children_subset (appended : document.Appended later owner leaf) (id : NodeId) :
    document.children id ⊆ later.children id := by
  rw [appended.children]
  split
  · next here =>
      rw [here]
      exact List.subset_append_left _ _
  · exact List.Subset.refl _

theorem wellFormed (appended : document.Appended later owner leaf)
    (wellFormed : document.WellFormed) (live : document.Live owner) (live' : document.Live leaf)
    (apart : ¬ document.Within leaf owner) (alone : (document.node leaf).parent = none) :
    later.WellFormed where
  reusable := by
    rw [appended.released, appended.size]
    exact wellFormed.reusable
  once := by
    rw [appended.released]
    exact wellFormed.once
  childless := by
    rw [appended.released]
    intro id gone
    have other : id ≠ owner := fun same => live.2 (same ▸ gone)
    rw [appended.children, if_neg other]
    exact wellFormed.childless id gone
  child := by
    intro above below member
    rw [appended.live]
    rcases appended.child_cases member with before | ⟨here, there⟩
    · have other : below ≠ leaf := fun same => wellFormed.not_mem_of_alone alone (same ▸ before)
      rw [appended.parent_of_ne other]
      exact wellFormed.child before
    · rw [here, there, appended.below]
      exact ⟨live', rfl⟩
  parent := by
    intro below above present named
    rw [appended.live] at present
    by_cases here : below = leaf
    · rw [here, appended.below] at named
      cases named
      rw [appended.children, if_pos rfl, here]
      exact List.mem_append_right _ (List.mem_singleton_self leaf)
    · rw [appended.parent_of_ne here] at named
      exact appended.children_subset above (wellFormed.parent present named)
  distinct := by
    intro id
    rw [appended.children]
    split
    · rw [List.nodup_append]
      refine ⟨wellFormed.distinct owner, List.nodup_singleton leaf, ?_⟩
      rintro other before _ new rfl
      exact wellFormed.not_mem_of_alone alone (List.mem_singleton.mp new ▸ before)
    · exact wellFormed.distinct id
  acyclic := by
    intro id path
    rcases appended.below_cases apart path with before | ⟨above, below⟩
    · exact wellFormed.acyclic id before
    · exact apart (below.trans above)
  listened := by
    rw [appended.listeners]
    exact fun entry member => (appended.live _).mpr (wellFormed.listened entry member)

end Appended

def grow (document : Document listener) (owner : NodeId) (kind : NodeKind) : Document listener :=
  let (child, created) := document.create kind
  created.append owner child

theorem appended_grow (reusable : ∀ id ∈ document.released, id.index < document.nodes.size)
    {owner : NodeId} (live : document.Live owner) (kind : NodeKind) :
    (document.create kind).2.Appended (document.grow owner kind) owner (document.create kind).1 := by
  have created := created_create reusable kind
  exact appended_append (created.stays live).1 created.inside (created.differs live) created.alone

/-- A node made just now can be put anywhere. -/
theorem Appended.wellFormed_of_created {owner new : NodeId} {kind : NodeKind}
    (appended : later.Appended final owner new) (created : document.Created later new kind)
    (wellFormed : document.WellFormed) (live : document.Live owner) : final.WellFormed :=
  appended.wellFormed (created.wellFormed wellFormed) (created.stays live)
    (created.present wellFormed.once)
    (not_within_of_childless created.no_children (created.differs live).symm) created.alone

theorem WellFormed.grow (wellFormed : document.WellFormed) {owner : NodeId}
    (live : document.Live owner) (kind : NodeKind) : (document.grow owner kind).WellFormed :=
  (appended_grow wellFormed.reusable live kind).wellFormed_of_created
    (created_create wellFormed.reusable kind) wellFormed live

/-- What a node spells by itself: its content, or the only text in it. -/
def Spells (document : Document listener) (id : NodeId) (text : String) : Prop :=
  if (document.kind id).isElement then
    ∃ content, document.children id = [content] ∧ document.kind content = .text text
  else document.kind id = (document.kind id).withContent text

/-- What a node spells is its text. -/
theorem textContent_of_spells {id : NodeId} {text : String} (live : document.Live id)
    (spells : document.Spells id text) : document.textContent id = text := by
  obtain ⟨size, enough⟩ := Nat.exists_eq_succ_of_ne_zero (Nat.ne_zero_of_lt live.1)
  rw [textContent, enough, textContentWithin]
  unfold Spells at spells
  cases here : document.kind id with
  | element tag =>
      rw [here] at spells
      obtain ⟨content, listed, kind⟩ := spells
      simp [listed, textContentWithin, kind, NodeKind.isComment, String.join]
  | text content =>
      rw [here, if_neg (by simp [NodeKind.isElement])] at spells
      simpa [NodeKind.withContent] using spells
  | comment content =>
      rw [here, if_neg (by simp [NodeKind.isElement])] at spells
      simpa [NodeKind.withContent] using spells

/-- What a change within a node that gives it a text keeps. -/
structure Retexted (document later : Document listener) (target : NodeId) (text : String) :
    Prop where
  kept : document.KeptOutside later (document.Within target)
  live : later.Live target
  spells : later.Spells target text
  kind : later.kind target = (document.kind target).withContent text
  attributes : (later.node target).attributes = (document.node target).attributes
  properties : (later.node target).properties = (document.node target).properties
  parent : (later.node target).parent = (document.node target).parent
  listeners : ∃ gone : List NodeId,
    (∀ id ∈ gone, (document.kind target).isElement = true ∧ document.Below target id) ∧
    later.listeners = document.listeners.filter (fun entry => entry.node ∉ gone)

variable {target : NodeId}

def rewrite (document : Document listener) (id : NodeId) (text : String) : Document listener :=
  document.change id (fun node => { node with kind := node.kind.withContent text })

theorem withContent_withContent (kind : NodeKind) (first second : String) :
    (kind.withContent first).withContent second = kind.withContent second := by
  cases kind <;> rfl

theorem isElement_withContent (kind : NodeKind) (text : String) :
    (kind.withContent text).isElement = kind.isElement := by
  cases kind <;> rfl

theorem tag_of_isElement {kind : NodeKind} (element : kind.isElement = true) :
    ∃ tag, kind = .element tag := by
  cases kind with
  | element tag => exact ⟨tag, rfl⟩
  | text content => cases element
  | comment content => cases element

theorem withContent_of_isElement {kind : NodeKind} (element : kind.isElement = true)
    (text : String) : kind.withContent text = kind := by
  obtain ⟨tag, rfl⟩ := tag_of_isElement element
  rfl

theorem withContent_of_isText {kind : NodeKind} (isText : kind.isText = true) (text : String) :
    kind.withContent text = .text text := by
  cases kind with
  | text content => rfl
  | element tag => cases isText
  | comment content => cases isText

section Rewrite

variable {id : NodeId} {text : String}

theorem kind_rewrite (live : document.Live id) :
    (document.rewrite id text).kind id = (document.kind id).withContent text := by
  rw [kind, rewrite, node_change_of_live live, kind]

theorem children_rewrite (other : NodeId) :
    (document.rewrite id text).children other = document.children other :=
  children_change document id other (fun _ => rfl)

theorem parent_rewrite (other : NodeId) :
    ((document.rewrite id text).node other).parent = (document.node other).parent :=
  parent_change document id other (fun _ => rfl)

theorem kept_rewrite (within : document.Within target id) :
    document.KeptOutside (document.rewrite id text) (document.Within target) := by
  intro other live outside
  have differs : other ≠ id := fun same => outside (same ▸ within)
  exact ⟨(live_change document id other).mpr live, node_change_of_ne differs⟩

end Rewrite

theorem retexted_leaf (live : document.Live target)
    (leaf : (document.kind target).isElement = false) (text : String) :
    document.Retexted (document.rewrite target text) target text where
  kept := kept_rewrite .refl
  live := (live_change document target target).mpr live
  spells := by
    rw [Spells, kind_rewrite live, isElement_withContent, leaf, withContent_withContent,
      if_neg Bool.false_ne_true]
  kind := kind_rewrite live
  attributes := by rw [rewrite, node_change_of_live live]
  properties := by rw [rewrite, node_change_of_live live]
  parent := by rw [rewrite, node_change_of_live live]
  listeners := ⟨[], fun _ none => absurd none List.not_mem_nil, by simp [rewrite, change]⟩

theorem retexted_only (forest : document.LiveForest) (live : document.Live target)
    (element : (document.kind target).isElement = true) {only : NodeId}
    (listed : document.children target = [only]) (isText : (document.kind only).isText = true)
    (text : String) :
    document.Retexted (document.rewrite only text) target text := by
  have member : only ∈ document.children target := listed ▸ List.mem_singleton_self only
  have below : document.Below target only := .single member
  have differs : target ≠ only := fun same => forest.acyclic live (same ▸ below)
  have here : (document.rewrite only text).node target = document.node target :=
    node_change_of_ne differs
  have same : (document.rewrite only text).kind target = document.kind target := by
    rw [kind, here, kind]
  refine ⟨kept_rewrite below.within, (live_change document only target).mpr live, ?_, ?_, ?_, ?_,
    ?_, ?_⟩
  · rw [Spells, same, if_pos element]
    refine ⟨only, ?_, ?_⟩
    · rw [children_rewrite, listed]
    · rw [kind_rewrite (forest.child live member).1, withContent_of_isText isText]
  · rw [same, withContent_of_isElement element]
  · rw [here]
  · rw [here]
  · rw [here]
  · exact ⟨[], fun _ none => absurd none List.not_mem_nil, by simp [rewrite, change]⟩

/-- The children of an element are released, and a new text takes their place. -/
structure Replaced (document cleared between later : Document listener) (target new : NodeId)
    (gone : List NodeId) (text : String) : Prop where
  all : ∀ id, id ∈ gone ↔ document.Below target id
  stripped : document.Stripped cleared target gone []
  live : cleared.Live target
  create : cleared.create (.text text) = (new, between)
  created : cleared.Created between new (.text text)
  full : between.nodes.size = max document.nodes.size between.nodeCount
  append : later = between.append target new
  appended : between.Appended later target new

theorem replaced_replace (forest : document.LiveForest) (live : document.Live target)
    (text : String) :
    ∃ cleared between new gone, document.Replaced cleared between
      (setTextContent.replace document target text (document.children target))
      target new gone text := by
  obtain ⟨gone, all, stripped⟩ := stripped_foldl
    ((forest.tree live).brood fun child listed => (forest.child live listed).2)
  have absent : target ∉ gone := fun lost => forest.acyclic live ((all target).mp lost)
  have live' := (stripped.live target).mpr ⟨live, absent⟩
  have full := full_create ((document.children target).foldl
    (fun document child => (document.detach child).release child) document) (.text text)
  rw [stripped.size] at full
  have reusable := stripped.reusable forest.reusable fun id lost =>
    (forest.tree live).inside ((all id).mp lost).within
  exact ⟨_, _, _, gone, all, stripped, live', rfl, created_create reusable (.text text), full,
    rfl, appended_grow reusable live' (.text text)⟩

namespace Replaced

variable {cleared between : Document listener} {new id : NodeId} {gone : List NodeId}
  {text : String}

theorem node_target (replaced : document.Replaced cleared between later target new gone text) :
    later.node target = { document.node target with children := [new] } := by
  have differs : target ≠ new := replaced.created.differs replaced.live
  have empty : between.children target = [] := by
    rw [replaced.created.children_of_ne differs, children, replaced.stripped.remaining]
  rw [replaced.appended.above, empty, replaced.created.others target differs,
    replaced.stripped.remaining]
  rfl

theorem node_new (replaced : document.Replaced cleared between later target new gone text) :
    later.node new = { Node.fresh (.text text) with parent := some target } := by
  rw [replaced.appended.below, replaced.created.fresh]

theorem stays (replaced : document.Replaced cleared between later target new gone text)
    (live : cleared.Live id) : later.Live id :=
  (replaced.appended.live id).mpr (replaced.created.stays live)

theorem kept (replaced : document.Replaced cleared between later target new gone text) :
    document.KeptOutside later (document.Within target) := by
  intro id live outside
  have other : id ≠ target := fun same => outside (same ▸ .refl)
  have outside' : id ∉ gone := fun lost => outside ((replaced.all id).mp lost).within
  have still : cleared.Live id := (replaced.stripped.live id).mpr ⟨live, outside'⟩
  have other' : id ≠ new := replaced.created.differs still
  refine ⟨replaced.stays still, ?_⟩
  rw [replaced.appended.others id other other', replaced.created.others id other',
    replaced.stripped.kept id outside' other]

theorem kind_target (replaced : document.Replaced cleared between later target new gone text) :
    later.kind target = document.kind target := by
  rw [kind, replaced.node_target, kind]

theorem spells (replaced : document.Replaced cleared between later target new gone text)
    (element : (document.kind target).isElement = true) : later.Spells target text := by
  rw [Spells, replaced.kind_target, if_pos element]
  refine ⟨new, ?_, ?_⟩
  · rw [children, replaced.node_target]
  · rw [kind, replaced.node_new]
    rfl

theorem listeners (replaced : document.Replaced cleared between later target new gone text) :
    later.listeners = document.listeners.filter (fun entry => entry.node ∉ gone) := by
  rw [replaced.appended.listeners, replaced.created.listeners, replaced.stripped.listeners]

theorem wellFormed (replaced : document.Replaced cleared between later target new gone text)
    (wellFormed : document.WellFormed) : cleared.WellFormed ∧ later.WellFormed := by
  have before := replaced.stripped.wellFormed wellFormed replaced.all
  exact ⟨before, replaced.appended.wellFormed_of_created replaced.created before replaced.live⟩

end Replaced

/-- The children of an element make place for a new text. -/
theorem retexted_replace (forest : document.LiveForest) (live : document.Live target)
    (element : (document.kind target).isElement = true) (text : String) :
    document.Retexted (setTextContent.replace document target text (document.children target))
      target text := by
  obtain ⟨cleared, between, new, gone, replaced⟩ := replaced_replace forest live text
  generalize setTextContent.replace document target text (document.children target) = later at *
  refine ⟨replaced.kept, replaced.stays replaced.live, replaced.spells element, ?_, ?_, ?_, ?_, ?_⟩
  · rw [replaced.kind_target, withContent_of_isElement element]
  · rw [replaced.node_target]
  · rw [replaced.node_target]
  · rw [replaced.node_target]
  · exact ⟨gone, fun id lost => ⟨element, (replaced.all id).mp lost⟩, replaced.listeners⟩

/-- The children of an element make place for a new text, unless its only child is a text. -/
def Replaces (document : Document listener) (id : NodeId) : Prop :=
  (document.kind id).isElement = true ∧
    ¬ ∃ only, document.children id = [only] ∧ (document.kind only).isText = true

theorem setTextContent_of_leaf (leaf : (document.kind target).isElement = false) (text : String) :
    document.setTextContent target text = document.rewrite target text := by
  rw [setTextContent, leaf, if_neg Bool.false_ne_true]
  rfl

theorem setTextContent_of_only (element : (document.kind target).isElement = true) {only : NodeId}
    (listed : document.children target = [only]) (isText : (document.kind only).isText = true)
    (text : String) : document.setTextContent target text = document.rewrite only text := by
  simp only [setTextContent, element, listed, isText, if_true]
  rfl

theorem setTextContent_of_replaces (replaces : document.Replaces target) (text : String) :
    document.setTextContent target text =
      setTextContent.replace document target text (document.children target) := by
  obtain ⟨element, other⟩ := replaces
  simp only [setTextContent, element, if_true]
  split
  · next only listed =>
      have isText : ¬ (document.kind only).isText = true := fun isText => other ⟨only, listed, isText⟩
      rw [if_neg isText, listed]
  · rfl

/-- A text is set in one of three ways. -/
theorem text_cases (document : Document listener) (target : NodeId) :
    (document.kind target).isElement = false ∨
    ((document.kind target).isElement = true ∧
      ∃ only, document.children target = [only] ∧ (document.kind only).isText = true) ∨
    document.Replaces target := by
  by_cases element : (document.kind target).isElement = true
  · by_cases only : ∃ only, document.children target = [only] ∧ (document.kind only).isText = true
    · exact .inr (.inl ⟨element, only⟩)
    · exact .inr (.inr ⟨element, only⟩)
  · exact .inl (Bool.eq_false_iff.mpr element)

theorem setTextContent_of_not_replaces (stays : ¬ document.Replaces target) (text : String) :
    ∃ id, document.setTextContent target text = document.rewrite id text := by
  rcases text_cases document target with leaf | ⟨element, only, listed, isText⟩ | replaces
  · exact ⟨target, setTextContent_of_leaf leaf text⟩
  · exact ⟨only, setTextContent_of_only element listed isText text⟩
  · exact absurd replaces stays

theorem retexted_setTextContent (forest : document.LiveForest) (live : document.Live target)
    (text : String) : document.Retexted (document.setTextContent target text) target text := by
  rcases text_cases document target with leaf | ⟨element, only, listed, isText⟩ | replaces
  · rw [setTextContent_of_leaf leaf]
    exact retexted_leaf live leaf text
  · rw [setTextContent_of_only element listed isText]
    exact retexted_only forest live element listed isText text
  · rw [setTextContent_of_replaces replaces]
    exact retexted_replace forest live replaces.1 text

theorem WellFormed.setTextContent (wellFormed : document.WellFormed) (live : document.Live target)
    (text : String) : (document.setTextContent target text).WellFormed := by
  by_cases replaces : document.Replaces target
  · rw [setTextContent_of_replaces replaces]
    obtain ⟨cleared, between, new, gone, replaced⟩ :=
      replaced_replace wellFormed.liveForest live text
    exact (replaced.wellFormed wellFormed).2
  · obtain ⟨id, same⟩ := setTextContent_of_not_replaces replaces text
    rw [same]
    exact wellFormed.change id (fun _ => rfl) (fun _ => rfl)

end ReactiveView.Document
