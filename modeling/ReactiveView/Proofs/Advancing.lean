import ReactiveView.Proofs.Arranging

/-!
# Views at work

A binding of a view shows the data if it is current and has set its value where no other
one sets something. A pass over a registry leaves all its subscribers so, and a write to
a reactive field all bindings that were so before.
-/

namespace ReactiveView

set_option autoImplicit false

variable {κ σ : Type} {root : RecordId}

namespace State

variable {state later final : State κ σ} {id : SubscriberId}

/-- A binding is current, and if no other one sets the same, the document has its
value. -/
structure Shows (state : State κ σ) (id : SubscriberId) : Prop where
  fresh : state.Fresh False id
  displays : state.Sole id → state.Displays id

/-- A view goes on: no binding comes or goes, those that are current stay so, and those
that show the data do so later. -/
structure Advances (root : RecordId) (state later : State κ σ) : Prop where
  rooted : later.Rooted root
  arranged : later.Arranged
  blueprint? : ∀ id, later.blueprint? id = state.blueprint? id
  alive : ∀ id, later.isAlive id = state.isAlive id
  listeners : ∀ {entry}, entry ∈ state.document.listeners →
    (∃ id spot, state.spot? id = some spot ∧ spot.node = entry.node) →
    entry ∈ later.document.listeners
  fresh : ∀ {id}, state.Fresh False id → later.Fresh False id
  shows : ∀ {id}, state.Shows id → later.Shows id

namespace Advances

theorem refl (rooted : state.Rooted root) (arranged : state.Arranged) :
    state.Advances root state :=
  ⟨rooted, arranged, fun _ => rfl, fun _ => rfl, fun member _ => member, fun fresh => fresh,
    fun shows => shows⟩

theorem trans (first : state.Advances root later) (second : later.Advances root final) :
    state.Advances root final where
  rooted := second.rooted
  arranged := second.arranged
  blueprint? := fun id => (second.blueprint? id).trans (first.blueprint? id)
  alive := fun id => (second.alive id).trans (first.alive id)
  listeners := by
    rintro entry member ⟨id, spot, sets, here⟩
    refine second.listeners (first.listeners member ⟨id, spot, sets, here⟩) ⟨id, spot, ?_, here⟩
    rw [spot?_congr (first.blueprint? id), sets]
  fresh := fun fresh => second.fresh (first.fresh fresh)
  shows := fun shows => second.shows (first.shows shows)

theorem sole (advances : state.Advances root later) : later.Sole id ↔ state.Sole id :=
  Sole.congr advances.blueprint?

theorem aside (rooted : state.Rooted root) (arranged : state.Arranged)
    (same : state.SameCore later) (document : later.document = state.document) :
    state.Advances root later := by
  have kept := (Conduct.freshness κ σ root False).same same rooted
  have planned (id : SubscriberId) : later.blueprint? id = state.blueprint? id := by
    rw [State.blueprint?, same.binding?, State.blueprint?]
  have spots (id : SubscriberId) : later.spot? id = state.spot? id := spot?_congr (planned id)
  refine ⟨kept.1, ⟨document ▸ arranged.wellFormed, ?_, ?_, ?_⟩, planned, same.isAlive,
    fun member _ => document ▸ member, fun fresh => kept.2.fresh fresh, ?_⟩
  · intro id binding found
    exact arranged.sets ((same.binding? id).symm.trans found)
  · intro id spot sets
    exact document ▸ arranged.live ((spots id).symm.trans sets)
  · intro id other spot spot' sets sets'
    rw [document]
    exact arranged.apart ((spots id).symm.trans sets) ((spots other).symm.trans sets')
  · intro id shows
    refine ⟨kept.2.fresh shows.fresh, fun sole binding found living => ?_⟩
    rw [same.store, document]
    exact shows.displays ((Sole.congr planned).mp sole) binding
      ((same.binding? id).symm.trans found) ((same.isAlive id).symm.trans living)

end Advances

theorem Touches.shows {spot : Spot} {other : SubscriberId} (arranged : state.Arranged)
    (touches : state.Touches later id spot) (settles : state.Settles False later)
    (differs : other ≠ id) (shows : state.Shows other) : later.Shows other := by
  refine ⟨settles.fresh shows.fresh, fun sole => ?_⟩
  have before := (Sole.congr touches.blueprint?).mp sole
  exact touches.displays arranged differs before (shows.displays before)

/-- A run of one binding that leaves it current. -/
theorem Refreshed.advances {binding : Binding κ} {held : Bool} {underWay : Nat} {value : Value}
    {setting : Document.Setting} (arranged : state.Arranged)
    (present : state.subscriber? id = some ⟨.binding binding, held, underWay⟩)
    (refreshed : state.Refreshed later id binding held underWay value setting)
    (rooted : later.Rooted root) (settles : state.Settles False later)
    (fresh : later.Fresh False id) : state.Advances root later ∧ later.Shows id := by
  have touches := refreshed.touches arranged present
  have shown : later.Shows id := ⟨fresh, fun _ => refreshed.displays arranged present⟩
  refine ⟨⟨rooted, arranged.of_touches touches, touches.blueprint?, touches.alive, ?_,
    fun fresh => settles.fresh fresh, ?_⟩, shown⟩
  · rintro entry member ⟨other, spot, sets, here⟩
    exact touches.listeners arranged member sets here
  · intro other shows
    by_cases here : other = id
    · exact here ▸ shown
    · exact touches.shows arranged settles here shows

end State

namespace Engine

variable {invoke : Invoke κ σ} {state later : State κ σ} {id : SubscriberId}
  {registry : RegistryId}

theorem suits_of_arranged (arranged : state.Arranged) (binding : Binding κ)
    (found : state.binding? id = some binding) :
    (Conduct.freshness κ σ root False).Suits invoke binding.reaction := by
  obtain ⟨spot, sets⟩ := arranged.sets found
  exact Conduct.suits_of_document (Reaction.ne_code sets)

theorem advances_notify (rooted : state.Rooted root) (arranged : state.Arranged)
    (alive : state.isAlive id = true)
    (ended : notify invoke id state = .ended (.ok ()) later) :
    state.Advances root later ∧ later.Shows id ∧ state.SameButFor id later := by
  have suits (binding : Binding κ) (found : state.binding? id = some binding) :
      (Conduct.freshness κ σ root False).Suits invoke binding.reaction :=
    suits_of_arranged arranged binding found
  have meets := meets_notify suits rooted alive
  rw [ended] at meets
  obtain ⟨rooted', settles, fresh⟩ := meets
  obtain ⟨subscriber, present, -⟩ := (Option.any_eq_true _ _).mp alive
  obtain ⟨binding, role⟩ := (rooted.coherent.exact id).role subscriber present
  obtain ⟨role', held, underWay⟩ := subscriber
  cases role
  have found := State.binding?_eq_some_iff.mpr ⟨held, underWay, present⟩
  have plain := ((rooted.coherent.exact id).plain binding found).callsNone
  obtain ⟨spot, sets⟩ := arranged.sets found
  have looked : (look (fun state => (state.subscriber? id).map Subscriber.role) :
      Engine κ σ (Option (Role κ))) state = .ended (.ok (some (.binding binding))) state := by
    simp only [look, present, Option.map_some]
  rw [notify, bind_of_ok looked] at ended
  obtain ⟨value, setting, refreshed⟩ := ok_of_run plain sets present alive ended
  have advances := refreshed.advances arranged present rooted' settles fresh
  exact ⟨advances.1, advances.2, refreshed.same⟩

theorem advances_takeTurn (rooted : state.Rooted root) (arranged : state.Arranged)
    (ended : takeTurn invoke registry id state = .ended (.ok ()) later) :
    state.Advances root later ∧ (id ∈ state.store.subscribers registry → later.Shows id) ∧
      ∀ other, other ≠ id →
        (other ∈ later.store.subscribers registry ↔ other ∈ state.store.subscribers registry) := by
  change (if decide (id ∈ state.store.subscribers registry) then
    (if state.isAlive id then notify invoke id
      else alter (State.changeStore (·.unregister registry id)))
    else pure ()) state = _ at ended
  by_cases present : id ∈ state.store.subscribers registry
  · have alive := rooted.coherent.alive present
    simp only [present, decide_true, if_true, alive] at ended
    obtain ⟨advances, shows, same⟩ := advances_notify rooted arranged alive ended
    exact ⟨advances, fun _ => shows, fun other differs => same.members other differs registry⟩
  · simp only [present, decide_false, Bool.false_eq_true, if_false] at ended
    cases ended
    exact ⟨.refl rooted arranged, fun member => absurd member present, fun _ _ => Iff.rfl⟩

/-- After a pass that ends well all its subscribers show the data. -/
theorem advances_notifyAll (rooted : state.Rooted root) (arranged : state.Arranged)
    (ended : notifyAll invoke registry state = .ended (.ok ()) later) :
    state.Advances root later ∧ ∀ id ∈ state.store.subscribers registry, later.Shows id := by
  -- by induction on those still to come: each is still in the registry at its turn, or
  -- has been there before and shows the data
  have turns (ids : List SubscriberId) (now : State κ σ) (rooted : now.Rooted root)
      (arranged : now.Arranged)
      (due : ∀ id ∈ ids, id ∈ now.store.subscribers registry ∨ now.Shows id)
      (ended : forEach (takeTurn invoke registry) ids now = .ended (.ok ()) later) :
      now.Advances root later ∧ ∀ id ∈ ids, later.Shows id := by
    induction ids generalizing now with
    | nil =>
        cases ended
        exact ⟨.refl rooted arranged, fun id none => absurd none List.not_mem_nil⟩
    | cons first rest induction =>
        obtain ⟨_, middle, turn, ended⟩ := ok_of_bind ended
        obtain ⟨advances, shown, others⟩ := advances_takeTurn rooted arranged turn
        have shows : middle.Shows first := by
          rcases due first List.mem_cons_self with present | before
          · exact shown present
          · exact advances.shows before
        obtain ⟨advances', shown'⟩ := induction middle advances.rooted advances.arranged (by
          intro id member
          by_cases here : id = first
          · exact .inr (here ▸ shows)
          · exact (due id (List.mem_cons_of_mem _ member)).imp (others id here).mpr
              advances.shows) ended
        refine ⟨advances.trans advances', fun id member => ?_⟩
        rcases List.mem_cons.mp member with rfl | later
        · exact advances'.shows shows
        · exact shown' id later
  exact turns _ state rooted arranged (fun _ member => .inl member) ended

end Engine

namespace State

variable {state later : State κ σ} {id : SubscriberId}

theorem Rooted.handed_within (rooted : state.Rooted root) {binding : Binding κ}
    (found : state.binding? id = some binding) (current : binding.Current False state.store)
    {value : Value} (handed : binding.handed = some value) : value.Within state.store.Has := by
  obtain ⟨evaluation, -, outcome, same, errors, -⟩ := current
  have grounded := rooted.grounded_context found
  have confined : (binding.formula.reading binding.context).Confined state.store state.store.Has _ :=
    binding.formula.confined_reading
      (fun place slot found _ => grounded.closed place slot found) grounded.there
  cases ended : evaluation.outcome with
  | error error => exact (errors error ended).elim
  | ok result =>
      cases (same result ended).symm.trans handed
      exact confined.outcome value (outcome.symm.trans ended)

section Elsewhere

variable (rooted : state.Rooted root) {change : Store → Store} {changed : Place → Prop}
  (continues : state.store.Continues (change state.store) changed)
  (apart : ∀ place, changed place → ∃ registry, state.store.registryAt place = some registry ∧
    id ∉ state.store.subscribers registry)

include rooted continues apart

theorem Rooted.fresh_changeStore (fresh : state.Fresh False id) :
    (state.changeStore change).Fresh False id := by
  intro binding found alive
  apply (fresh binding found alive).continues ((rooted.coherent.exact id).plain binding found)
    (rooted.grounded_context found) continues
  intro place change
  obtain ⟨registry, attached, absent⟩ := apart place change
  refine ⟨registry, attached, fun subscribed => absent ?_⟩
  exact ((rooted.coherent.exact id).joined registry).mpr ⟨binding, found, subscribed⟩

/-- A change of the data elsewhere leaves a binding showing them. -/
theorem Rooted.shows_changeStore (shows : state.Shows id) :
    (state.changeStore change).Shows id := by
  refine ⟨rooted.fresh_changeStore continues apart shows.fresh, ?_⟩
  intro sole binding found alive
  have current := shows.fresh binding found alive
  obtain ⟨value, setting, handed, set, holds⟩ := shows.displays sole binding found alive
  have text := continues.text rooted.grounded.closed (rooted.handed_within found current handed)
  exact ⟨value, setting, handed, (Reaction.setting?_congr text _).trans set, holds⟩

end Elsewhere

theorem Arranged.changeStore (arranged : state.Arranged) (change : Store → Store) :
    (state.changeStore change).Arranged :=
  ⟨arranged.wellFormed, arranged.sets, arranged.live, arranged.apart⟩

theorem Advances.changeStore (rooted : state.Rooted root) (arranged : state.Arranged)
    {change : Store → Store}
    (continues : state.store.Continues (change state.store) (fun _ => False))
    (rooted' : (state.changeStore change).Rooted root) :
    state.Advances root (state.changeStore change) where
  rooted := rooted'
  arranged := arranged.changeStore change
  blueprint? := fun _ => rfl
  alive := fun _ => rfl
  listeners := fun member _ => member
  fresh := fun fresh => (rooted.settles_changeStore continues).fresh fresh
  shows := fun shows => rooted.shows_changeStore continues (fun _ impossible => impossible.elim) shows

end State

namespace Engine

variable {invoke : Invoke κ σ} {state later : State κ σ} {record : RecordId} {key : String}
  {registry : RegistryId} {value : Value}

/-- A write to a reactive field that ends well leaves all bindings as current as they
were, and those that depend on the field show the data. -/
theorem advances_write (rooted : state.Rooted root) (arranged : state.Arranged)
    (attached : state.store.registryAt (.field record key) = some registry)
    (inside : value.Within state.store.Has)
    (ended : write invoke (.field record key) value state = .ended (.ok ()) later) :
    state.Advances root later ∧ ∀ id ∈ state.store.subscribers registry, later.Shows id := by
  obtain ⟨old, found⟩ := Store.slot?_of_registryAt attached
  rw [write_of_reactive found] at ended
  have continues := Store.continues_overwrite attached value
  have same (registry' : RegistryId) :=
    Store.subscribers_overwrite state.store (.field record key) value registry registry'
  obtain ⟨advances, shown⟩ := advances_notifyAll (rooted.overwrite attached inside)
    (arranged.changeStore _) ended
  have elsewhere {id : SubscriberId} (absent : id ∉ state.store.subscribers registry)
      (place : Place) (here : place = .field record key) :
      ∃ registry, state.store.registryAt place = some registry ∧
        id ∉ state.store.subscribers registry :=
    ⟨registry, here ▸ attached, absent⟩
  have shown' (id : SubscriberId) (member : id ∈ state.store.subscribers registry) :
      later.Shows id := shown id ((same registry).symm ▸ member)
  refine ⟨⟨advances.rooted, advances.arranged, advances.blueprint?, advances.alive,
    advances.listeners, ?_, ?_⟩, shown'⟩
  · intro id fresh
    by_cases member : id ∈ state.store.subscribers registry
    · exact (shown' id member).fresh
    · exact advances.fresh (rooted.fresh_changeStore continues (elsewhere member) fresh)
  · intro id shows
    by_cases member : id ∈ state.store.subscribers registry
    · exact shown' id member
    · exact advances.shows (rooted.shows_changeStore continues (elsewhere member) shows)

end Engine

end ReactiveView
