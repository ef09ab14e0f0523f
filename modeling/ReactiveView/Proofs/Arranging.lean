import ReactiveView.Proofs.Making

/-!
# Bindings that keep apart

The bindings of a view set texts and properties of nodes. If no text that is set has a
node of another binding below it, then a run of one binding leaves alone what the others
have set, and they stay apart.
-/

namespace ReactiveView

set_option autoImplicit false

variable {κ σ : Type}

namespace Document

variable {listener : Type} {document later : Document listener} {region : NodeId → Prop}

/-- The nodes of a region keep their parents, which are in the region as well. -/
structure Anchored (document later : Document listener) (region : NodeId → Prop) : Prop where
  before : document.WellFormed
  after : later.WellFormed
  live : ∀ {id}, region id → document.Live id
  parent : ∀ {id}, region id → (later.node id).parent = (document.node id).parent
  upward : ∀ {parent child}, child ∈ document.children parent → region child → region parent

namespace Anchored

variable {root id : NodeId}

theorem child (anchored : document.Anchored later region) (inside : region id) {above : NodeId}
    (listed : id ∈ later.children above) : id ∈ document.children above := by
  have named := (anchored.after.child listed).2
  rw [anchored.parent inside] at named
  exact anchored.before.parent (anchored.live inside) named

/-- What is above a node of the region was above it before. -/
theorem within (anchored : document.Anchored later region) (inside : region id)
    (within : later.Within root id) : document.Within root id := by
  induction within with
  | refl => exact .refl
  | tail _ step induction =>
      have listed := anchored.child inside step
      exact (induction (anchored.upward listed inside)).tail listed

theorem below (anchored : document.Anchored later region) (inside : region id)
    (below : later.Below root id) : document.Below root id := by
  obtain ⟨above, path, step⟩ := Relation.TransGen.tail'_iff.mp below
  have listed := anchored.child inside step
  exact .tail' (anchored.within (anchored.upward listed inside) path) listed

end Anchored

theorem Tended.anchored {target : NodeId} {spots : List Spot} {removed : List String}
    {added : List (Registration listener)}
    (tended : document.Tended later target spots removed added) (wellFormed : document.WellFormed) :
    document.Anchored later
      (fun id => document.Live id ∧ ¬ (.text target ∈ spots ∧ document.Below target id)) where
  before := wellFormed
  after := tended.wellFormed
  live := And.left
  parent := by
    rintro id ⟨live, outside⟩
    by_cases here : id = target
    · rw [here, tended.parent]
    · rw [(tended.kept id live (not_or.mpr ⟨here, outside⟩)).2]
  upward := by
    rintro parent child listed ⟨-, outside⟩
    exact ⟨wellFormed.live_of_child listed, fun ⟨set, below⟩ => outside ⟨set, below.tail listed⟩⟩

end Document

namespace State

def spot? (state : State κ σ) (id : SubscriberId) : Option Spot :=
  (state.blueprint? id).bind (fun blueprint => blueprint.reaction.spot?)

/-- Every binding sets something, on a node in use, and no text that is set has such a
node below it. -/
structure Arranged (state : State κ σ) : Prop where
  wellFormed : state.document.WellFormed
  sets : ∀ {id binding}, state.binding? id = some binding →
    ∃ spot, binding.reaction.spot? = some spot
  live : ∀ {id spot}, state.spot? id = some spot → state.document.Live spot.node
  apart : ∀ {id other spot spot'}, state.spot? id = some spot → state.spot? other = some spot' →
    spot = .text spot.node → ¬ state.document.Below spot.node spot'.node

/-- No other binding sets what this one sets. -/
def Sole (state : State κ σ) (id : SubscriberId) : Prop :=
  ∀ other, state.spot? other = state.spot? id → other = id

/-- As long as it is alive, what a binding has set is in the document. -/
def Displays (state : State κ σ) (id : SubscriberId) : Prop :=
  ∀ binding, state.binding? id = some binding → state.isAlive id = true →
    binding.Displayed state.store state.document

variable {state later : State κ σ} {id other : SubscriberId} {binding : Binding κ}

theorem spot?_of_binding? (found : state.binding? id = some binding) :
    state.spot? id = binding.reaction.spot? := by
  simp only [spot?, blueprint?, found, Option.map_some, Option.bind_some, Binding.blueprint]

theorem binding?_of_blueprint? {blueprint : Blueprint κ}
    (planned : state.blueprint? id = some blueprint) :
    ∃ binding, state.binding? id = some binding ∧ binding.blueprint = blueprint :=
  Option.map_eq_some_iff.mp planned

/-- States with the same blueprints have the same spots. -/
theorem spot?_congr (same : later.blueprint? id = state.blueprint? id) :
    later.spot? id = state.spot? id := by
  rw [spot?, same, spot?]

theorem Sole.congr (same : ∀ id, later.blueprint? id = state.blueprint? id) :
    later.Sole id ↔ state.Sole id := by
  simp only [Sole, spot?_congr (same _)]

theorem Arranged.anchored (arranged : state.Arranged) {region : NodeId → Prop}
    (anchored : state.document.Anchored later.document region)
    (same : ∀ id, later.blueprint? id = state.blueprint? id)
    (inside : ∀ id spot, state.spot? id = some spot → region spot.node)
    (live : ∀ id spot, state.spot? id = some spot → later.document.Live spot.node) :
    later.Arranged where
  wellFormed := anchored.after
  sets := by
    intro id binding found
    have planned := (same id).symm
    rw [blueprint?, blueprint?, found] at planned
    obtain ⟨before, found', same⟩ := Option.map_eq_some_iff.mp planned
    obtain ⟨spot, sets⟩ := arranged.sets found'
    exact ⟨spot, (congrArg (fun blueprint => blueprint.reaction.spot?) same).symm.trans sets⟩
  live := by
    intro id spot sets
    rw [spot?_congr (same id)] at sets
    exact live id spot sets
  apart := by
    intro id other spot spot' sets sets' text below
    rw [spot?_congr (same id)] at sets
    rw [spot?_congr (same other)] at sets'
    exact arranged.apart sets sets' text (anchored.below (inside other spot' sets') below)

/-- The spot of one binding has been set, and no other binding has changed. -/
structure Touches (state later : State κ σ) (id : SubscriberId) (spot : Spot) : Prop where
  sets : state.spot? id = some spot
  tended : state.document.Tended later.document spot.node [spot] [] []
  blueprint? : ∀ other, later.blueprint? other = state.blueprint? other
  binding? : ∀ other, other ≠ id → later.binding? other = state.binding? other
  alive : ∀ other, later.isAlive other = state.isAlive other
  text : ∀ value, later.store.text value = state.store.text value

section Touches

variable {spot spot' : Spot} (arranged : state.Arranged) (touches : state.Touches later id spot)

include arranged touches

theorem Touches.outside (sets : state.spot? other = some spot') :
    ¬ (.text spot.node ∈ [spot] ∧ state.document.Below spot.node spot'.node) := by
  rintro ⟨text, below⟩
  exact arranged.apart touches.sets sets (List.mem_singleton.mp text).symm below

theorem Arranged.of_touches : later.Arranged := by
  refine arranged.anchored (touches.tended.anchored arranged.wellFormed) touches.blueprint? ?_ ?_
  · exact fun other spot' sets => ⟨arranged.live sets, touches.outside arranged sets⟩
  · intro other spot' sets
    by_cases here : spot'.node = spot.node
    · rw [here]
      exact touches.tended.live
    · exact (touches.tended.kept _ (arranged.live sets)
        (not_or.mpr ⟨here, touches.outside arranged sets⟩)).1

/-- The other bindings display what they did, but for those that set the same. -/
theorem Touches.displays (differs : other ≠ id) (sole : state.Sole other)
    (displays : state.Displays other) : later.Displays other := by
  intro binding present living
  rw [touches.binding? other differs] at present
  rw [touches.alive other] at living
  obtain ⟨spot', sets⟩ := arranged.sets present
  have planned : state.spot? other = some spot' := (spot?_of_binding? present).trans sets
  have distinct : spot' ≠ spot := by
    rintro rfl
    exact differs (sole id (touches.sets.trans planned.symm)).symm
  have displayed := displays binding present living
  by_cases here : spot'.node = spot.node
  · refine displayed.tended sets (fun value _ => touches.text value) arranged.wellFormed
      (here ▸ touches.tended) ?_
    simpa using distinct
  · have outside := touches.outside arranged planned
    refine displayed.same sets (fun value _ => touches.text value)
      (touches.tended.kept _ (arranged.live planned) (not_or.mpr ⟨here, outside⟩)).2 ?_
    intro isText child listed
    refine (touches.tended.kept child (arranged.wellFormed.child listed).1 ?_).2
    -- a child of a text that is set is no node of a binding, and is below none
    rintro (rfl | ⟨set, below⟩)
    · exact arranged.apart planned touches.sets isText (.single listed)
    · obtain ⟨above, path, step⟩ := Relation.TransGen.tail'_iff.mp below
      cases arranged.wellFormed.forest.unique step listed
      rcases Document.within_iff_below.mp path with same | inner
      · exact here same.symm
      · exact outside ⟨set, inner⟩

theorem Touches.listeners {entry : Registration (Listener κ)}
    (member : entry ∈ state.document.listeners) (sets : state.spot? other = some spot')
    (here : spot'.node = entry.node) : entry ∈ later.document.listeners := by
  obtain ⟨gone, inside, listeners⟩ := touches.tended.listeners
  rw [listeners, List.append_nil]
  refine List.mem_filter.mpr ⟨member, decide_eq_true fun lost => ?_⟩
  obtain ⟨-, set, below⟩ := inside entry.node lost
  exact touches.outside arranged sets ⟨set, here ▸ below⟩

end Touches

section Refreshed

variable {held : Bool} {underWay : Nat} {value : Value} {setting : Document.Setting}
  (arranged : state.Arranged)
  (present : state.subscriber? id = some ⟨.binding binding, held, underWay⟩)
  (refreshed : state.Refreshed later id binding held underWay value setting)

include arranged present refreshed

theorem Refreshed.spot? : state.spot? id = some setting.spot := by
  have found := binding?_eq_some_iff.mpr ⟨held, underWay, present⟩
  obtain ⟨spot, sets⟩ := arranged.sets found
  obtain ⟨setting', set, same⟩ := Reaction.setting_of_spot? sets state.store value
  cases set.symm.trans refreshed.sets
  rw [spot?_of_binding? found, same, sets]

theorem Refreshed.touches : state.Touches later id setting.spot where
  sets := refreshed.spot? arranged present
  tended := by
    rw [refreshed.document]
    exact Document.tended_set arranged.wellFormed
      (arranged.live (refreshed.spot? arranged present))
  blueprint? := by
    intro other
    by_cases here : other = id
    · rw [here, blueprint?, binding?_eq_some_iff.mpr ⟨held, underWay, refreshed.subscriber⟩,
        blueprint?, binding?_eq_some_iff.mpr ⟨held, underWay, present⟩]
      rfl
    · rw [blueprint?, blueprint?, refreshed.same.binding? here]
  binding? := fun other differs => refreshed.same.binding? differs
  alive := by
    intro other
    by_cases here : other = id
    · rw [here, isAlive, isAlive, refreshed.subscriber, present]
      rfl
    · exact refreshed.same.isAlive here
  text := refreshed.same.data.text

theorem Refreshed.displays : later.Displays id := by
  intro after found _
  cases (binding?_eq_some_iff.mpr ⟨held, underWay, refreshed.subscriber⟩).symm.trans found
  refine ⟨value, setting, rfl, ?_, ?_⟩
  · exact (Reaction.setting?_congr (refreshed.same.data.text value) _).trans refreshed.sets
  · rw [refreshed.document]
    exact Document.holds_set arranged.wellFormed
      (arranged.live (refreshed.spot? arranged present))

end Refreshed

end State

end ReactiveView
