import ReactiveView.Proofs.Editing
import ReactiveView.Proofs.Walk

/-!
# Changes about one node

What a compilation does about one node, step by step: it sets the spots of the node,
removes attributes of it, adds listeners to it, and leaves all else as it is. Only where
the text of the node is set do the nodes below it change.
-/

namespace ReactiveView

set_option autoImplicit false

namespace Document

variable {listener : Type} {document later final : Document listener} {target : NodeId}

theorem KeptOutside.mono {region region' : NodeId → Prop}
    (kept : document.KeptOutside later region) (larger : ∀ id, region id → region' id) :
    document.KeptOutside later region' :=
  fun id live outside => kept id live (fun inside => outside (larger id inside))

/-- Listeners of some nodes in a region are gone, and others have been added at the end. -/
def Relistened (document later : Document listener) (region : NodeId → Prop)
    (added : List (Registration listener)) : Prop :=
  ∃ gone : List NodeId, (∀ id ∈ gone, region id) ∧
    later.listeners = document.listeners.filter (fun entry => entry.node ∉ gone) ++ added

theorem relistened_same {region : NodeId → Prop} {added : List (Registration listener)}
    (same : later.listeners = document.listeners ++ added) :
    document.Relistened later region added :=
  ⟨[], fun _ none => absurd none List.not_mem_nil, by simp [same]⟩

theorem Relistened.trans {first second region : NodeId → Prop}
    {added added' : List (Registration listener)} (wellFormed : document.WellFormed)
    (before : document.Relistened later first added)
    (after : later.Relistened final second added')
    (inside : ∀ id, first id → region id)
    (inside' : ∀ id, document.Live id → second id → region id)
    (outside : ∀ entry ∈ added, ¬ second entry.node) :
    document.Relistened final region (added ++ added') := by
  obtain ⟨gone, among, listeners⟩ := before
  obtain ⟨more, among', listeners'⟩ := after
  -- what was not in use to begin with had no listeners, and so loses none
  refine ⟨gone ++ more.filter (fun id => document.Live id), ?_, ?_⟩
  · intro id member
    rcases List.mem_append.mp member with former | latter
    · exact inside id (among id former)
    · obtain ⟨member', live⟩ := List.mem_filter.mp latter
      exact inside' id (of_decide_eq_true live) (among' id member')
  · have still : added.filter (fun entry => entry.node ∉ more) = added := by
      apply List.filter_eq_self.mpr
      intro entry member
      exact decide_eq_true (fun lost => outside entry member (among' _ lost))
    rw [listeners', listeners, List.filter_append, still, List.filter_filter, List.append_assoc]
    congr 1
    apply List.filter_congr
    intro entry member
    have live := wellFormed.listened entry member
    simp [live, Bool.and_comm]

theorem Spells.same {id : NodeId} {text : String} (spells : document.Spells id text)
    (kind : later.kind id = document.kind id)
    (children : later.children id = document.children id)
    (below : ∀ child ∈ document.children id, later.node child = document.node child) :
    later.Spells id text := by
  unfold Spells at spells ⊢
  rw [kind, children]
  split
  · next element =>
      rw [if_pos element] at spells
      obtain ⟨content, listed, spelled⟩ := spells
      refine ⟨content, listed, ?_⟩
      have here : content ∈ document.children id := listed ▸ List.mem_singleton_self content
      rw [Document.kind, below content here]
      exact spelled
  · next leaf =>
      rwa [if_neg leaf] at spells

/-- What has been done about a node: the spots of it that have been set, the names of
attributes that have been removed, and the listeners that have been added. -/
structure Tended (document later : Document listener) (target : NodeId) (spots : List Spot)
    (removed : List String) (added : List (Registration listener)) : Prop where
  wellFormed : later.WellFormed
  kept : document.KeptOutside later
    (fun id => id = target ∨ .text target ∈ spots ∧ document.Below target id)
  live : later.Live target
  parent : (later.node target).parent = (document.node target).parent
  kind : ∃ text, later.kind target = (document.kind target).withContent text
  attributes : (later.node target).attributes =
    removed.foldl Dictionary.erase (document.node target).attributes
  properties : ∀ name, .property target name ∉ spots →
    (later.node target).properties.find? name = (document.node target).properties.find? name
  untexted : .text target ∉ spots →
    later.kind target = document.kind target ∧ later.children target = document.children target
  texted : .text target ∈ spots → ∃ text, later.Spells target text
  untouched : spots = [] → removed = [] → later.node target = document.node target
  listeners : document.Relistened later
    (fun id => (document.kind target).isElement = true ∧ .text target ∈ spots ∧
      document.Below target id) added

namespace Tended

variable {spots spots' : List Spot} {removed removed' : List String}
  {added added' : List (Registration listener)}

theorem isElement (tended : document.Tended later target spots removed added) :
    (later.kind target).isElement = (document.kind target).isElement := by
  obtain ⟨text, same⟩ := tended.kind
  rw [same, isElement_withContent]

theorem within (tended : document.Tended later target spots removed added) :
    document.KeptOutside later (document.Within target) := by
  refine tended.kept.mono ?_
  rintro id (rfl | ⟨-, below⟩)
  · exact .refl
  · exact below.within

theorem below (tended : document.Tended later target spots removed added)
    (wellFormed : document.WellFormed) {id : NodeId} (live : document.Live id)
    (below : later.Below target id) : document.Below target id := by
  rcases within_iff_below.mp
      (tended.within.within wellFormed tended.wellFormed live below.within) with rfl | before
  · exact absurd below (tended.wellFormed.acyclic _)
  · exact before

theorem spells (tended : document.Tended later target spots removed added)
    (wellFormed : document.WellFormed) (absent : .text target ∉ spots) {text : String}
    (spells : document.Spells target text) : later.Spells target text := by
  obtain ⟨kind, children⟩ := tended.untexted absent
  apply spells.same kind children
  intro child listed
  apply (tended.kept child (wellFormed.child listed).1 _).2
  rintro (rfl | ⟨set, -⟩)
  · exact wellFormed.acyclic child (.single listed)
  · exact absent set

theorem refl (wellFormed : document.WellFormed) (live : document.Live target) :
    document.Tended document target [] [] [] where
  wellFormed := wellFormed
  kept := fun _ live _ => ⟨live, rfl⟩
  live := live
  parent := rfl
  kind := by
    cases document.kind target with
    | element tag => exact ⟨"", rfl⟩
    | text content => exact ⟨content, rfl⟩
    | comment content => exact ⟨content, rfl⟩
  attributes := rfl
  properties := fun _ _ => rfl
  untexted := fun _ => ⟨rfl, rfl⟩
  texted := fun none => absurd none List.not_mem_nil
  untouched := fun _ _ => rfl
  listeners := relistened_same (List.append_nil _).symm

theorem trans (wellFormed : document.WellFormed)
    (first : document.Tended later target spots removed added)
    (second : later.Tended final target spots' removed' added')
    (here : ∀ entry ∈ added, entry.node = target) :
    document.Tended final target (spots ++ spots') (removed ++ removed') (added ++ added') where
  wellFormed := second.wellFormed
  kept := by
    have before : document.KeptOutside later (fun id =>
        id = target ∨ .text target ∈ spots ++ spots' ∧ document.Below target id) := by
      refine first.kept.mono ?_
      rintro id (rfl | ⟨set, below⟩)
      · exact .inl rfl
      · exact .inr ⟨List.mem_append_left _ set, below⟩
    refine before.trans second.kept ?_
    rintro id live (rfl | ⟨set, below⟩)
    · exact .inl rfl
    · exact .inr ⟨List.mem_append_right _ set, first.below wellFormed live below⟩
  live := second.live
  parent := second.parent.trans first.parent
  kind := by
    obtain ⟨text, same⟩ := first.kind
    obtain ⟨text', same'⟩ := second.kind
    exact ⟨text', by rw [same', same, withContent_withContent]⟩
  attributes := by rw [second.attributes, first.attributes, List.foldl_append]
  properties := by
    intro name absent
    rw [List.mem_append, not_or] at absent
    rw [second.properties name absent.2, first.properties name absent.1]
  untexted := by
    intro absent
    rw [List.mem_append, not_or] at absent
    obtain ⟨kind, children⟩ := first.untexted absent.1
    obtain ⟨kind', children'⟩ := second.untexted absent.2
    exact ⟨kind'.trans kind, children'.trans children⟩
  texted := by
    intro set
    by_cases latter : .text target ∈ spots'
    · exact second.texted latter
    · obtain ⟨text, spells⟩ := first.texted ((List.mem_append.mp set).resolve_right latter)
      exact ⟨text, second.spells first.wellFormed latter spells⟩
  untouched := by
    intro none none'
    rw [List.append_eq_nil_iff] at none none'
    rw [second.untouched none.2 none'.2, first.untouched none.1 none'.1]
  listeners := by
    refine first.listeners.trans wellFormed second.listeners ?_ ?_ ?_
    · rintro id ⟨element, set, below⟩
      exact ⟨element, List.mem_append_left _ set, below⟩
    · rintro id live ⟨element, set, below⟩
      exact ⟨first.isElement ▸ element, List.mem_append_right _ set,
        first.below wellFormed live below⟩
    · rintro entry member ⟨-, -, below⟩
      rw [here entry member] at below
      exact first.wellFormed.acyclic target below

end Tended

section Steps

variable (wellFormed : document.WellFormed) (live : document.Live target)

include wellFormed live

theorem tended_setTextContent (text : String) :
    document.Tended (document.setTextContent target text) target [.text target] [] [] := by
  have retexted := retexted_setTextContent wellFormed.liveForest live text
  refine ⟨wellFormed.setTextContent live text, ?_, retexted.live, retexted.parent, ⟨text, retexted.kind⟩,
    retexted.attributes, fun _ _ => by rw [retexted.properties], ?_, fun _ => ⟨text, retexted.spells⟩,
    fun none _ => absurd none (List.cons_ne_nil _ _), ?_⟩
  · refine retexted.kept.mono ?_
    intro id within
    rcases within_iff_below.mp within with rfl | below
    · exact .inl rfl
    · exact .inr ⟨List.mem_singleton_self _, below⟩
  · exact fun absent => absurd (List.mem_singleton_self _) absent
  · obtain ⟨gone, inside, listeners⟩ := retexted.listeners
    refine ⟨gone, fun id member => ?_, by rw [listeners, List.append_nil]⟩
    obtain ⟨element, below⟩ := inside id member
    exact ⟨element, List.mem_singleton_self _, below⟩

theorem tended_change {f : Node → Node} {spots : List Spot} {removed : List String}
    (kind : ∀ node, (f node).kind = node.kind)
    (children : ∀ node, (f node).children = node.children)
    (parent : ∀ node, (f node).parent = node.parent)
    (attributes : ∀ node, (f node).attributes = removed.foldl Dictionary.erase node.attributes)
    (properties : ∀ node name, .property target name ∉ spots →
      (f node).properties.find? name = node.properties.find? name)
    (absent : .text target ∉ spots) (changes : spots ≠ [] ∨ removed ≠ []) :
    document.Tended (document.change target f) target spots removed [] := by
  have same : (document.change target f).kind target = document.kind target := by
    rw [Document.kind, node_change_of_live live, kind, Document.kind]
  have own := (Tended.refl wellFormed live).kind
  refine ⟨wellFormed.change target children parent, ?_, (live_change document target target).mpr live,
    parent_change document target target parent, same ▸ own, ?_, ?_, ?_, ?_, ?_, ?_⟩
  · intro id live outside
    rw [not_or] at outside
    exact ⟨(live_change document target id).mpr live, node_change_of_ne outside.1⟩
  · rw [node_change_of_live live, attributes]
  · intro name elsewhere
    rw [node_change_of_live live, properties _ name elsewhere]
  · exact fun _ => ⟨same, children_change document target target children⟩
  · exact fun set => absurd set absent
  · intro none none'
    rcases changes with some | some
    · exact absurd none some
    · exact absurd none' some
  · exact relistened_same (List.append_nil _).symm

theorem tended_setProperty (name : String) (value : Value) :
    document.Tended (document.setProperty target name value) target [.property target name] [] [] := by
  refine tended_change wellFormed live (fun _ => rfl) (fun _ => rfl) (fun _ => rfl) (fun _ => rfl) ?_
    (by simp) (.inl (List.cons_ne_nil _ _))
  intro node other elsewhere
  have differs : other ≠ name := fun same => elsewhere (same ▸ List.mem_singleton_self _)
  exact (Dictionary.find?_insert _ _ _ _).trans (if_neg differs)

theorem tended_removeAttribute (name : String) :
    document.Tended (document.removeAttribute target name) target [] [name] [] :=
  tended_change wellFormed live (fun _ => rfl) (fun _ => rfl) (fun _ => rfl) (fun _ => rfl)
    (fun _ _ _ => rfl) List.not_mem_nil (.inr (List.cons_ne_nil _ _))

theorem tended_listen (event : String) (code : listener) :
    document.Tended (document.listen target event code) target [] [] [⟨target, event, code⟩] := by
  have own := Tended.refl wellFormed live
  refine ⟨⟨wellFormed.reusable, wellFormed.once, wellFormed.childless, wellFormed.child,
    wellFormed.parent, wellFormed.distinct, wellFormed.acyclic, ?_⟩, own.kept, live, rfl, own.kind,
    rfl, own.properties, own.untexted, own.texted, own.untouched,
    relistened_same rfl⟩
  intro entry member
  rcases List.mem_append.mp member with before | new
  · exact wellFormed.listened entry before
  · rw [List.mem_singleton.mp new]
    exact live

end Steps

/-- What is set in a document: the text of a node, or a property of one. -/
inductive Setting where
  | text (node : NodeId) (text : String)
  | property (node : NodeId) (name : String) (value : Value)

namespace Setting

def spot : Setting → Spot
  | text node _ => .text node
  | property node name _ => .property node name

end Setting

def set (document : Document listener) : Setting → Document listener
  | .text node text => document.setTextContent node text
  | .property node name value => document.setProperty node name value

/-- A setting as an edit. -/
def Setting.edit : Setting → Edit listener
  | .text node content => .setTextContent node content
  | .property node name value => .setProperty node name value

def Edit.setting? : Edit listener → Option Setting
  | .setTextContent node text => some (.text node text)
  | .setProperty node name value => some (.property node name value)
  | _ => none

theorem make_edit (document : Document listener) (setting : Setting) :
    setting.edit.make document = document.set setting := by
  cases setting <;> rfl

/-- The document is as a setting leaves it. -/
def Holds (document : Document listener) : Setting → Prop
  | .text node text => document.Spells node text
  | .property node name value => (document.node node).properties.find? name = some value

variable {setting : Setting}

theorem tended_set (wellFormed : document.WellFormed) (live : document.Live setting.spot.node) :
    document.Tended (document.set setting) setting.spot.node [setting.spot] [] [] := by
  cases setting with
  | text node text => exact tended_setTextContent wellFormed live text
  | property node name value => exact tended_setProperty wellFormed live name value

theorem holds_set (wellFormed : document.WellFormed) (live : document.Live setting.spot.node) :
    (document.set setting).Holds setting := by
  cases setting with
  | text node text => exact (retexted_setTextContent wellFormed.liveForest live text).spells
  | property node name value =>
      have live : document.Live node := live
      simp only [Holds, set, setProperty]
      rw [node_change_of_live live]
      exact (Dictionary.find?_insert _ _ _ _).trans (if_pos rfl)

theorem Holds.same (holds : document.Holds setting)
    (node : later.node setting.spot.node = document.node setting.spot.node)
    (below : setting.spot = .text setting.spot.node →
      ∀ child ∈ document.children setting.spot.node, later.node child = document.node child) :
    later.Holds setting := by
  cases setting with
  | text target text =>
      exact Spells.same holds (congrArg Node.kind node) (congrArg Node.children node) (below rfl)
  | property target name value =>
      have node : later.node target = document.node target := node
      change (later.node target).properties.find? name = some value
      rw [node]
      exact holds

/-- What is set at a spot stays while other spots of the node are set. -/
theorem Holds.tended (holds : document.Holds setting) (wellFormed : document.WellFormed)
    {spots : List Spot} {removed : List String} {added : List (Registration listener)}
    (tended : document.Tended later setting.spot.node spots removed added)
    (other : setting.spot ∉ spots) : later.Holds setting := by
  cases setting with
  | text target text => exact tended.spells wellFormed other holds
  | property target name value => exact (tended.properties name other).trans holds

end Document

namespace Reaction

variable {κ : Type}

/-- What a reaction sets on a value. Null gives no text where it is the text of an
element. -/
def setting? (store : Store) (value : Value) : Reaction κ → Option Document.Setting
  | code _ => none
  | textContent node => some (.text node (if value = .null then "" else store.text value))
  | renderedText node => some (.text node (store.text value))
  | property node name => some (.property node name value)

theorem setting_of_spot? {reaction : Reaction κ} {spot : Spot} (sets : reaction.spot? = some spot)
    (store : Store) (value : Value) :
    ∃ setting, reaction.setting? store value = some setting ∧ setting.spot = spot := by
  cases reaction with
  | code body => cases sets
  | textContent node =>
      cases sets
      exact ⟨_, rfl, rfl⟩
  | renderedText node =>
      cases sets
      exact ⟨_, rfl, rfl⟩
  | property node name =>
      cases sets
      exact ⟨_, rfl, rfl⟩

theorem setting?_congr {store changed : Store} {value : Value}
    (same : changed.text value = store.text value) (reaction : Reaction κ) :
    reaction.setting? changed value = reaction.setting? store value := by
  cases reaction with
  | code body => rfl
  | textContent node => simp only [setting?, same]
  | renderedText node => simp only [setting?, same]
  | property node name => rfl

end Reaction

namespace Binding

variable {κ listener : Type}

/-- The document holds what the reaction of a binding has set on the value handed to
it. -/
def Displayed (binding : Binding κ) (store : Store) (document : Document listener) : Prop :=
  ∃ value setting, binding.handed = some value ∧
    binding.reaction.setting? store value = some setting ∧ document.Holds setting

variable {binding : Binding κ} {store changed : Store} {document later : Document listener}
  {spot : Spot}

theorem Displayed.same (displayed : binding.Displayed store document)
    (sets : binding.reaction.spot? = some spot) (text : ∀ value, binding.handed = some value →
      changed.text value = store.text value)
    (node : later.node spot.node = document.node spot.node)
    (below : spot = .text spot.node → ∀ child ∈ document.children spot.node,
      later.node child = document.node child) :
    binding.Displayed changed later := by
  obtain ⟨value, setting, handed, set, holds⟩ := displayed
  obtain ⟨setting', set', rfl⟩ := Reaction.setting_of_spot? sets store value
  cases set.symm.trans set'
  refine ⟨value, setting, handed, ?_, holds.same node below⟩
  rw [Reaction.setting?_congr (text value handed), set]

theorem Displayed.tended (displayed : binding.Displayed store document)
    (sets : binding.reaction.spot? = some spot) (text : ∀ value, binding.handed = some value →
      changed.text value = store.text value) (wellFormed : document.WellFormed)
    {spots : List Spot} {removed : List String} {added : List (Registration listener)}
    (tended : document.Tended later spot.node spots removed added) (other : spot ∉ spots) :
    binding.Displayed changed later := by
  obtain ⟨value, setting, handed, set, holds⟩ := displayed
  obtain ⟨setting', set', rfl⟩ := Reaction.setting_of_spot? sets store value
  cases set.symm.trans set'
  refine ⟨value, setting, handed, ?_, holds.tended wellFormed tended other⟩
  rw [Reaction.setting?_congr (text value handed), set]

end Binding

end ReactiveView
