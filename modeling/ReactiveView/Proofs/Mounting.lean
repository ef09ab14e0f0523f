import ReactiveView.Proofs.Advancing
import ReactiveView.Proofs.Compiled

/-!
# Mounting a view

After a mount that succeeds all bindings of the view show the data, and they keep apart
from each other and from those there were before.
-/

namespace ReactiveView

set_option autoImplicit false

variable {κ σ : Type}

namespace Document

variable {listener : Type} {document : Document listener} {root id : NodeId}

theorem within_of_descendantsWithin {depth : Nat}
    (member : id ∈ document.descendantsWithin depth root) : document.Within root id := by
  induction depth generalizing root with
  | zero => cases member
  | succ depth induction =>
      rcases List.mem_cons.mp member with rfl | deeper
      · exact .refl
      · obtain ⟨child, listed, inside⟩ := List.mem_flatMap.mp deeper
        exact within_iff.mpr (.inr ⟨child, listed, induction inside⟩)

theorem within_of_query {selector : String} (found : document.query selector = some id) :
    document.Within body id :=
  within_of_descendantsWithin (List.mem_of_find?_eq_some found)

end Document

namespace View

/-- What the bindings of a view are to be, by the document before it is mounted. -/
def plan {listener : Type} (view : View κ) (reference : Document listener) :
    List (Blueprint κ) :=
  reference.blueprints view.context (reference.walk view.mount)

def spots {listener : Type} (view : View κ) (reference : Document listener) : List Spot :=
  Blueprint.spots (view.plan reference)

end View

namespace State

/-- A view can be mounted on a root and a node: the data are closed, and the bindings
there are, if any, are about the same root and set nothing below the node. -/
structure Mountable (root : RecordId) (mount : NodeId) (state : State κ σ) : Prop where
  coherent : state.Coherent
  closed : state.store.Closed
  there : state.store.Has (.record root)
  rooted : ∀ id binding, state.binding? id = some binding → binding.context.data = root
  arranged : state.Arranged
  body : state.document.Live Document.body
  elsewhere : ∀ {id spot}, state.spot? id = some spot → ¬ state.document.Below mount spot.node
  beside : ∀ {id spot}, state.spot? id = some spot → spot = .text spot.node →
    ¬ state.document.Within spot.node mount

/-- The bindings of a view are as the document before it says, and show the data. -/
structure Mounted (reference : Document (Listener κ)) (view : View κ) (state : State κ σ) :
    Prop where
  rooted : state.Rooted view.context.data
  arranged : state.Arranged
  plan : view.bindings.map state.blueprint? = (view.plan reference).map some
  alive : ∀ id ∈ view.bindings, state.isAlive id = true
  sole : ∀ id ∈ view.bindings, ∀ spot, state.spot? id = some spot →
    (view.spots reference).count spot = 1 → state.Sole id
  shows : ∀ id ∈ view.bindings, state.Shows id
  listeners : ∀ entry ∈ reference.registrations view.context (reference.walk view.mount),
    (∃ id spot, state.spot? id = some spot ∧ spot.node = entry.node) →
      entry ∈ state.document.listeners

variable {reference : Document (Listener κ)} {view : View κ} {state later : State κ σ}
  {ids : List SubscriberId}

/-- A view that goes on stays mounted. -/
theorem Mounted.advances (mounted : state.Mounted reference view)
    (advances : state.Advances view.context.data later) : later.Mounted reference view where
  rooted := advances.rooted
  arranged := advances.arranged
  plan := by
    rw [← mounted.plan]
    exact List.map_congr_left fun id _ => advances.blueprint? id
  alive := by
    intro id member
    rw [advances.alive]
    exact mounted.alive id member
  sole := by
    intro id member spot sets once
    rw [spot?_congr (advances.blueprint? id)] at sets
    exact advances.sole.mpr (mounted.sole id member spot sets once)
  shows := fun id member => advances.shows (mounted.shows id member)
  listeners := by
    rintro entry member ⟨id, spot, sets, here⟩
    rw [spot?_congr (advances.blueprint? id)] at sets
    exact advances.listeners (mounted.listeners entry member ⟨id, spot, sets, here⟩)
      ⟨id, spot, sets, here⟩

theorem count_spots {plan : List (Blueprint κ)}
    (planned : ids.map state.blueprint? = plan.map some) (spot : Spot) :
    (Blueprint.spots plan).count spot = ids.countP (fun id => state.spot? id == some spot) := by
  have spots : ids.map state.spot? = plan.map (fun blueprint => blueprint.reaction.spot?) := by
    have mapped := congrArg (List.map fun blueprint : Option (Blueprint κ) =>
      blueprint.bind (fun blueprint => blueprint.reaction.spot?)) planned
    rw [List.map_map, List.map_map] at mapped
    exact mapped
  have counted := congrArg (List.countP (· == some spot)) spots
  rw [List.countP_map, List.countP_map] at counted
  rw [Blueprint.spots, List.count_filterMap]
  exact counted.symm

theorem exists_of_plan {plan : List (Blueprint κ)}
    (planned : ids.map state.blueprint? = plan.map some) {blueprint : Blueprint κ}
    (member : blueprint ∈ plan) : ∃ id ∈ ids, state.blueprint? id = some blueprint := by
  have among : some blueprint ∈ ids.map state.blueprint? :=
    planned ▸ List.mem_map_of_mem member
  exact List.mem_map.mp among

theorem mem_plan {plan : List (Blueprint κ)}
    (planned : ids.map state.blueprint? = plan.map some) {id : SubscriberId} (member : id ∈ ids) :
    ∃ blueprint ∈ plan, state.blueprint? id = some blueprint := by
  have among : state.blueprint? id ∈ plan.map some := planned ▸ List.mem_map_of_mem member
  obtain ⟨blueprint, planned, same⟩ := List.mem_map.mp among
  exact ⟨blueprint, planned, same.symm⟩

theorem Made.blueprint? {bindings : List (Binding κ)} (made : state.Made later ids bindings)
    (id : SubscriberId) : later.blueprint? id = state.blueprint? id ∨ id ∈ ids := by
  by_cases before : id.index < state.subscribers.size
  · left
    simp only [State.blueprint?, State.binding?, made.earlier id before]
  · by_cases there : id.index < later.subscribers.size
    · exact .inr (made.mem_iff.mpr ⟨Nat.le_of_not_lt before, there⟩)
    · left
      have gone : later.subscriber? id = none := Array.getElem?_eq_none (Nat.le_of_not_lt there)
      have absent : state.subscriber? id = none := Array.getElem?_eq_none (Nat.le_of_not_lt before)
      simp only [State.blueprint?, State.binding?, gone, absent]

section Compiled

variable {context : Context κ} {root : NodeId} {bindings : List (Binding κ)} {id : SubscriberId}
  {spot : Spot}
  (compiles : Compiles state.document context (state.document.walk root)
    (state.document.Below root) state later ids bindings)

include compiles

theorem Compiles.settles (rooted : state.Rooted context.data) :
    later.Rooted context.data ∧ state.Settles False later := by
  refine compiles.made.settles context.data (fun binding among => ?_) rooted
  have planned : binding.blueprint ∈ _ := compiles.plan ▸ List.mem_map_of_mem among
  exact congrArg Context.data (Document.mem_blueprints planned).1

theorem Compiles.visited (member : id ∈ ids) (sets : later.spot? id = some spot) :
    spot.node ∈ state.document.walk root ∧
      (spot = .text spot.node → (state.document.node spot.node).descends = false) := by
  obtain ⟨blueprint, among, planned⟩ := mem_plan compiles.planned member
  obtain ⟨-, spot', sets', visited, stays⟩ := Document.mem_blueprints among
  rw [State.spot?, planned, Option.bind_some] at sets
  cases sets.symm.trans sets'
  exact ⟨visited, stays⟩

theorem Compiles.spot? (sets : later.spot? id = some spot) :
    state.spot? id = some spot ∨ spot.node ∈ state.document.walk root ∧
      (spot = .text spot.node → (state.document.node spot.node).descends = false) := by
  rcases compiles.made.blueprint? id with same | new
  · left
    rw [← spot?_congr same, sets]
  · exact .inr (compiles.visited new sets)

/-- Visited nodes, and those that are not below the root, have stayed in their places. -/
theorem Compiles.anchored (arranged : state.Arranged) : state.document.Anchored later.document (fun id =>
    state.document.Live id ∧
      (state.document.Below root id → id ∈ state.document.walk root)) where
  before := arranged.wellFormed
  after := compiles.wellFormed
  live := And.left
  parent := by
    rintro id ⟨live, visited⟩
    by_cases below : state.document.Below root id
    · exact (compiles.settled id (visited below)).parent
    · rw [(compiles.kept id live below).2]
  upward := by
    rintro parent child listed ⟨-, visited⟩
    refine ⟨arranged.wellFormed.live_of_child listed, fun below => ?_⟩
    obtain ⟨above, listed', here | visited'⟩ :=
      Document.parent_of_walkWithin (visited (below.tail listed))
    · cases arranged.wellFormed.forest.unique listed listed'
      rw [here] at below
      exact absurd below (arranged.wellFormed.acyclic root)
    · cases arranged.wellFormed.forest.unique listed listed'
      exact visited'

variable
  (elsewhere : ∀ {id spot}, state.spot? id = some spot → ¬ state.document.Below root spot.node)

include elsewhere

theorem Compiles.sole_iff (member : id ∈ ids) (sets : later.spot? id = some spot) :
    (Blueprint.spots (state.document.blueprints context (state.document.walk root))).count spot = 1 ↔
      later.Sole id := by
  rw [count_spots compiles.planned spot,
    countP_eq_one_iff compiles.made.nodup member (by simp [sets])]
  constructor
  · intro alone other same
    rcases compiles.made.blueprint? other with same' | new
    · have before : state.spot? other = some spot :=
        (spot?_congr same').symm.trans (same.trans sets)
      have visited := (compiles.visited member sets).1
      exact absurd (Document.below_of_walkWithin visited) (elsewhere before)
    · exact alone other new (by simp [same, sets])
  · intro sole other _ same
    exact sole other (by rw [sets]; simpa using same)

theorem Compiles.shows (rooted : state.Rooted context.data) (member : id ∈ ids) :
    later.Shows id := by
  obtain ⟨rooted', settles⟩ := compiles.settles rooted
  obtain ⟨binding, among, present⟩ := compiles.made.subscriber_of_mem member
  have found := binding?_eq_some_iff.mpr ⟨true, 0, present⟩
  constructor
  · intro binding' found' alive
    rcases settles.bindings id binding' found' alive with current | ⟨-, before, -⟩
    · exact current
    · -- there was no such binding before
      have absent : state.subscriber? id = Option.none :=
        Array.getElem?_eq_none (compiles.made.mem_iff.mp member).1
      simp [State.binding?, absent] at before
  · intro sole binding' found' _
    cases found.symm.trans found'
    have planned : binding.blueprint ∈ _ := compiles.plan ▸ List.mem_map_of_mem among
    obtain ⟨-, spot, sets, -⟩ := Document.mem_blueprints planned
    have sets' : later.spot? id = some spot := (spot?_of_binding? found).trans sets
    exact compiles.displayed binding among spot sets
      ((compiles.sole_iff elsewhere member sets').mpr sole)

variable (arranged : state.Arranged)

include arranged

theorem Compiles.live (sets : later.spot? id = some spot) : later.document.Live spot.node := by
  rcases compiles.spot? sets with before | ⟨visited, -⟩
  · exact (compiles.kept _ (arranged.live before) (elsewhere before)).1
  · exact (compiles.settled _ visited).live

theorem Compiles.inside (sets : later.spot? id = some spot) :
    state.document.Live spot.node ∧
      (state.document.Below root spot.node → spot.node ∈ state.document.walk root) := by
  rcases compiles.spot? sets with before | ⟨visited, -⟩
  · exact ⟨arranged.live before, fun below => absurd below (elsewhere before)⟩
  · exact ⟨arranged.wellFormed.live_of_below (Document.below_of_walkWithin visited),
      fun _ => visited⟩

theorem Arranged.of_compiles
    (beside : ∀ {id spot}, state.spot? id = some spot → spot = .text spot.node →
      ¬ state.document.Within spot.node root) : later.Arranged where
  wellFormed := compiles.wellFormed
  sets := by
    intro id binding found
    have planned : later.blueprint? id = some binding.blueprint := by
      rw [State.blueprint?, found]
      rfl
    rcases compiles.made.blueprint? id with same | new
    · obtain ⟨before, found', same'⟩ := binding?_of_blueprint? (same.symm.trans planned)
      obtain ⟨spot, sets⟩ := arranged.sets found'
      exact ⟨spot, (congrArg (fun blueprint => blueprint.reaction.spot?) same').symm.trans sets⟩
    · obtain ⟨blueprint, member, planned'⟩ := mem_plan compiles.planned new
      obtain ⟨-, spot, sets, -⟩ := Document.mem_blueprints member
      cases planned.symm.trans planned'
      exact ⟨spot, sets⟩
  live := compiles.live elsewhere arranged
  apart := by
    intro id other spot spot' sets sets' text below
    have forest := arranged.wellFormed.forest
    have above := (compiles.anchored arranged).below (compiles.inside elsewhere arranged sets') below
    rcases compiles.spot? sets with before | ⟨visited, stays⟩
    · rcases compiles.spot? sets' with before' | ⟨visited', -⟩
      · exact arranged.apart before before' text above
      · -- the text is not below the root, so it would be above it
        rcases forest.comparable (Document.below_of_walkWithin visited').within above.within with
          path | path
        · rcases Document.within_iff_below.mp path with same | inner
          · exact beside before text (same ▸ .refl)
          · exact elsewhere before inner
        · exact beside before text path
    · have inner := Document.below_of_walkWithin visited
      rcases compiles.spot? sets' with before' | ⟨visited', -⟩
      · exact elsewhere before' (inner.trans above)
      · have descends := forest.descends_of_walkWithin visited' above inner
        rw [stays text] at descends
        cases descends

end Compiled

/-- As long as there is no binding, a view can be mounted anywhere. -/
theorem mountable_of_pristine {store : Store} {root : RecordId} (pristine : store.Pristine root)
    {document : Document (Listener κ)} (wellFormed : document.WellFormed)
    (body : document.Live Document.body) (mount : NodeId) (host : σ) :
    ({ State.initial host with store, document } : State κ σ).Mountable root mount where
  coherent := (coherent_of_store pristine.ranged pristine.unobserved host).sameCore ⟨rfl, rfl, rfl⟩
  closed := pristine.closed
  there := pristine.there
  rooted := fun _ _ => nofun
  arranged := ⟨wellFormed, nofun, nofun, nofun⟩
  body := body
  elsewhere := nofun
  beside := nofun

namespace Mountable

variable {root : RecordId} {mount : NodeId}

theorem live (mountable : state.Mountable root mount) {selector : String}
    (found : state.document.query selector = some mount) : state.document.Live mount :=
  mountable.arranged.wellFormed.live_of_within mountable.body (Document.within_of_query found)

theorem rooted_instrument (mountable : state.Mountable root mount) :
    (state.changeStore (·.instrument root)).Rooted root := by
  have instruments : state.store.Instruments (state.store.instrument root) :=
    Store.instruments_instrumentFrom state.store _
  exact ⟨mountable.coherent.changeStore (instruments.ranged mountable.coherent.ranged)
      instruments.subscribers,
    Store.grounded_instrument mountable.closed mountable.there, mountable.rooted⟩

end Mountable

end State

namespace Engine

theorem mountView_eq (invoke : Invoke κ σ) (depth : Nat) (selector : String) (data : RecordId)
    (methods : Dictionary κ) (state : State κ σ) :
    mountView invoke depth selector data methods state =
      match state.document.query selector with
      | none => .ended (.error (.mountNotFound selector)) state
      | some mount =>
          match compileBelow invoke ⟨data, methods⟩ depth mount
              (state.changeStore (·.instrument data)) with
          | .ended (.ok bindings) later => .ended (.ok ⟨mount, ⟨data, methods⟩, bindings⟩) later
          | .ended (.error error) later => .ended (.error error) later
          | .stopped later => .stopped later := by
  have looked : (look (fun state => state.document.query selector) :
      Engine κ σ (Option NodeId)) state = .ended (.ok (state.document.query selector)) state := rfl
  rw [mountView, bind_of_ok looked]
  cases state.document.query selector with
  | none => rfl
  | some mount =>
      have altered : (alter (State.changeStore (·.instrument data)) : Engine κ σ Unit) state =
          .ended (.ok ()) (state.changeStore (·.instrument data)) := rfl
      simp only [bind_of_ok altered]
      cases ran : compileBelow invoke ⟨data, methods⟩ depth mount
          (state.changeStore (·.instrument data)) with
      | stopped later => simp only [Bind.bind, bind, ran]
      | ended outcome later =>
          cases outcome with
          | ok bindings => exact bind_of_ok ran _
          | error error => exact bind_of_error ran _

theorem ok_of_mountView {invoke : Invoke κ σ} {depth : Nat} {selector : String}
    {data : RecordId} {methods : Dictionary κ} {state later : State κ σ} {view : View κ}
    (ended : mountView invoke depth selector data methods state = .ended (.ok view) later) :
    state.document.query selector = some view.mount ∧ view.context = ⟨data, methods⟩ ∧
      compileBelow invoke view.context depth view.mount
        (state.changeStore (·.instrument data)) = .ended (.ok view.bindings) later := by
  rw [mountView_eq] at ended
  split at ended
  · cases ended
  · next mount found =>
      split at ended
      · next bindings later' compiles =>
          cases ended
          exact ⟨found, rfl, compiles⟩
      · cases ended
      · cases ended

end Engine

/-- A compilation where other bindings are elsewhere leaves its bindings showing the
data. -/
theorem mounted_of_compileBelow {invoke : Invoke κ σ} {depth : Nat} {state later : State κ σ}
    {view : View κ} (rooted : state.Rooted view.context.data) (arranged : state.Arranged)
    (live : state.document.Live view.mount)
    (elsewhere : ∀ {id spot}, state.spot? id = some spot →
      ¬ state.document.Below view.mount spot.node)
    (beside : ∀ {id spot}, state.spot? id = some spot → spot = .text spot.node →
      ¬ state.document.Within spot.node view.mount)
    (plain : ∀ blueprint ∈ view.plan state.document,
      blueprint.formula.callsNone view.context.methods = true)
    (ended : Engine.compileBelow invoke view.context depth view.mount state =
      .ended (.ok view.bindings) later) :
    later.Mounted state.document view := by
  obtain ⟨bindings, compiles⟩ := Engine.compiles_tree arranged.wellFormed live plain ended
  refine ⟨(compiles.settles rooted).1, .of_compiles compiles elsewhere arranged beside,
    compiles.planned, fun id member => compiles.made.isAlive member, ?_,
    fun id member => compiles.shows elsewhere rooted member, ?_⟩
  · intro id member spot sets
    exact (compiles.sole_iff elsewhere member sets).mp
  · intro entry member _
    obtain ⟨gone, -, listeners⟩ := compiles.listeners
    rw [listeners]
    exact List.mem_append_right _ member

/-- Right after a mount the bindings of the view show the data. -/
theorem mounted_of_mountView {invoke : Invoke κ σ} {depth : Nat} {selector : String}
    {data : RecordId} {methods : Dictionary κ} {state later : State κ σ} {view : View κ}
    (mountable : state.Mountable data view.mount)
    (plain : ∀ blueprint ∈ view.plan state.document,
      blueprint.formula.callsNone view.context.methods = true)
    (ended : Engine.mountView invoke depth selector data methods state = .ended (.ok view) later) :
    later.Mounted state.document view := by
  obtain ⟨found, context, compiled⟩ := Engine.ok_of_mountView ended
  have about : view.context.data = data := congrArg Context.data context
  have rooted : (state.changeStore (·.instrument data)).Rooted view.context.data :=
    about.symm ▸ mountable.rooted_instrument
  have mounted : later.Mounted (state.changeStore (·.instrument data)).document view :=
    mounted_of_compileBelow rooted (mountable.arranged.changeStore _) (mountable.live found)
      mountable.elsewhere mountable.beside plain compiled
  exact mounted

end ReactiveView
