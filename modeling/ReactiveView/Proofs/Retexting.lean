import ReactiveView.Proofs.Editing

/-!
# Setting a text replaces one subtree

Whatever the shape of the tree: all that was below the node goes, before the new text is made,
and so do its listeners; all that is not within the node stays as it is. It is enough that the
nodes in use form a forest, whatever the released places hold.
-/

namespace ReactiveView.Document

set_option autoImplicit false

variable {listener : Type} {document later cleared between : Document listener}
  {target new id : NodeId} {gone : List NodeId} {text : String}

/-- Listeners of other nodes are not touched when some nodes lose theirs. -/
theorem listenersFor_of_filter
    (listeners : later.listeners = document.listeners.filter (fun entry => entry.node ∉ gone))
    (outside : id ∉ gone) (event : String) :
    later.listenersFor id event = document.listenersFor id event := by
  rw [listenersFor, listeners, List.filter_filter, listenersFor]
  congr 1
  apply List.filter_congr
  intro entry _
  by_cases here : entry.node = id
  · simp [here, outside]
  · simp [here]

theorem listenersFor_of_gone
    (listeners : later.listeners = document.listeners.filter (fun entry => entry.node ∉ gone))
    (lost : id ∈ gone) (event : String) : later.listenersFor id event = [] := by
  rw [listenersFor, listeners, List.filter_filter, List.map_eq_nil_iff, List.filter_eq_nil_iff]
  intro entry _ kept
  simp only [Bool.and_eq_true, decide_eq_true_eq] at kept
  exact kept.2 (kept.1.1 ▸ lost)

/-- The descendants of a node are released before the text that takes their place is made. -/
structure Resettled (document later : Document listener) (target : NodeId) (text : String)
    (gone : List NodeId) (cleared between : Document listener) (new : NodeId) : Prop where
  once : gone.Nodup
  all : ∀ id, id ∈ gone ↔ document.Below target id
  stripped : document.Stripped cleared target gone []
  create : cleared.create (.text text) = (new, between)
  append : later = between.append target new
  children : later.children target = [new]
  fresh : later.node new = { Node.fresh (.text text) with parent := some target }
  unheard : ∀ id ∈ gone, ∀ event, later.listenersFor id event = []
  released : later.released = (gone ++ document.released).tail

/-- What a text that is set does to the document. -/
structure Settled (document later : Document listener) (target : NodeId) (text : String) :
    Prop where
  spelled : later.textContent target = text
  leaf : (document.kind target).isElement = false → later = document.rewrite target text
  content : (document.kind target).isElement = true →
    ∃ content, later.children target = [content] ∧ later.kind content = .text text ∧
      (later.node content).parent = some target ∧ (document.released.Nodup → later.Live content)
  only : ∀ only, (document.kind target).isElement = true → document.children target = [only] →
    (document.kind only).isText = true → later = document.rewrite only text
  replaced : document.Replaces target →
    ∃ gone cleared between new, document.Resettled later target text gone cleared between new
  live : later.Live target
  node : later.node target = { document.node target with
    kind := (document.kind target).withContent text
    children := later.children target }
  listeners : ∀ event, later.listenersFor target event = document.listenersFor target event
  outside : ∀ id, document.Live id → ¬ document.Within target id →
    later.Live id ∧ later.node id = document.node id ∧
      ∀ event, later.listenersFor id event = document.listenersFor id event
  size : later.nodes.size =
    if (document.kind target).isElement = true ∧ document.children target = [] ∧
        document.released = [] then document.nodes.size + 1
    else document.nodes.size

theorem Replaced.resettled (replaced : document.Replaced cleared between later target new gone text) :
    document.Resettled later target text gone cleared between new where
  once := replaced.stripped.distinct
  all := replaced.all
  stripped := replaced.stripped
  create := replaced.create
  append := replaced.append
  children := by rw [Document.children, replaced.node_target]
  fresh := replaced.node_new
  unheard := fun _ lost => listenersFor_of_gone replaced.listeners lost
  released := by
    rw [replaced.appended.released, replaced.created.released, replaced.stripped.released]

/-- A new text is in use, where no place has been released twice. -/
theorem Replaced.present (replaced : document.Replaced cleared between later target new gone text)
    (forest : document.LiveForest) (live : document.Live target)
    (once : document.released.Nodup) : later.Live new := by
  have alive (id : NodeId) (lost : id ∈ gone) : document.Live id :=
    forest.grove.descend live ((replaced.all id).mp lost).within
  exact (replaced.appended.live new).mpr
    (replaced.created.present (replaced.stripped.once once alive))

theorem Replaced.size (replaced : document.Replaced cleared between later target new gone text) :
    later.nodes.size =
      if document.children target = [] ∧ document.released = [] then document.nodes.size + 1
      else document.nodes.size := by
  have childless : gone = [] ↔ document.children target = [] := by
    rw [List.eq_nil_iff_forall_not_mem, List.eq_nil_iff_forall_not_mem]
    constructor
    · exact fun none child listed => none child ((replaced.all child).mpr (.single listed))
    · intro none id lost
      obtain ⟨child, listed, -⟩ := below_iff.mp ((replaced.all id).mp lost)
      exact none child listed
  have size := size_create cleared (.text text)
  rw [replaced.create, replaced.stripped.released, replaced.stripped.size] at size
  rw [replaced.appended.size, size]
  simp only [List.append_eq_nil_iff, childless]

theorem replaces_of_childless (element : (document.kind target).isElement = true)
    (childless : document.children target = []) : document.Replaces target := by
  refine ⟨element, ?_⟩
  rintro ⟨only, listed, -⟩
  rw [childless] at listed
  cases listed

theorem size_retexted (forest : document.LiveForest) (live : document.Live target)
    (text : String) :
    (document.setTextContent target text).nodes.size =
      if (document.kind target).isElement = true ∧ document.children target = [] ∧
          document.released = [] then document.nodes.size + 1
      else document.nodes.size := by
  by_cases replaces : document.Replaces target
  · obtain ⟨cleared, between, new, gone, replaced⟩ := replaced_replace forest live text
    rw [setTextContent_of_replaces replaces, replaced.size]
    simp only [replaces.1, true_and]
  · obtain ⟨place, same⟩ := setTextContent_of_not_replaces replaces text
    rw [same, if_neg fun grown => replaces (replaces_of_childless grown.1 grown.2.1)]
    exact size_change document place _

theorem content_setTextContent (forest : document.LiveForest) (live : document.Live target)
    (element : (document.kind target).isElement = true) (text : String) :
    ∃ content, (document.setTextContent target text).children target = [content] ∧
      (document.setTextContent target text).kind content = .text text ∧
      ((document.setTextContent target text).node content).parent = some target ∧
      (document.released.Nodup → (document.setTextContent target text).Live content) := by
  rcases text_cases document target with leaf | ⟨-, only, listed, isText⟩ | replaces
  · rw [element] at leaf
    cases leaf
  · rw [setTextContent_of_only element listed isText]
    obtain ⟨live', named⟩ := forest.child live (listed ▸ List.mem_singleton_self only)
    refine ⟨only, ?_, ?_, ?_, fun _ => (live_change document only only).mpr live'⟩
    · rw [children_rewrite, listed]
    · rw [kind_rewrite live', withContent_of_isText isText]
    · rw [parent_rewrite, named]
  · rw [setTextContent_of_replaces replaces]
    obtain ⟨cleared, between, new, gone, replaced⟩ := replaced_replace forest live text
    generalize setTextContent.replace document target text (document.children target) = later at *
    refine ⟨new, ?_, ?_, ?_, replaced.present forest live⟩
    · rw [children, replaced.node_target]
    · rw [kind, replaced.node_new]
      rfl
    · rw [replaced.node_new]

theorem resettled_setTextContent (forest : document.LiveForest) (live : document.Live target)
    (replaces : document.Replaces target) (text : String) :
    ∃ gone cleared between new, document.Resettled (document.setTextContent target text) target
      text gone cleared between new := by
  rw [setTextContent_of_replaces replaces]
  obtain ⟨cleared, between, new, gone, replaced⟩ := replaced_replace forest live text
  exact ⟨gone, cleared, between, new, replaced.resettled⟩

theorem Retexted.node (retexted : document.Retexted later target text) :
    later.node target = { document.node target with
      kind := (document.kind target).withContent text
      children := later.children target } :=
  calc later.node target
    _ = ⟨later.kind target, (later.node target).attributes, (later.node target).properties,
          (later.node target).parent, later.children target⟩ := rfl
    _ = _ := by rw [retexted.kind, retexted.attributes, retexted.properties, retexted.parent]

/-- A text that is set in a node replaces what is below the node, and nothing else. -/
theorem setTextContent_replaces_subtree (forest : document.LiveForest)
    (live : document.Live target) (text : String) :
    document.Settled (document.setTextContent target text) target text := by
  have retexted := retexted_setTextContent forest live text
  obtain ⟨gone, below, listeners⟩ := retexted.listeners
  have outside {id : NodeId} (apart : ¬ document.Below target id) : id ∉ gone :=
    fun lost => apart (below id lost).2
  exact {
    spelled := textContent_of_spells retexted.live retexted.spells
    leaf := fun leaf => setTextContent_of_leaf leaf text
    content := fun element => content_setTextContent forest live element text
    only := fun only element listed isText => setTextContent_of_only element listed isText text
    replaced := fun replaces => resettled_setTextContent forest live replaces text
    live := retexted.live
    node := retexted.node
    listeners := listenersFor_of_filter listeners (outside (forest.acyclic live))
    outside := by
      intro id live' apart
      obtain ⟨still, same⟩ := retexted.kept id live' apart
      exact ⟨still, same, listenersFor_of_filter listeners
        (outside fun path => apart path.within)⟩
    size := size_retexted forest live text }

/-- An item with a text in it, which is listened to, makes place for a text that takes the place
of its own text. -/
theorem setTextContent_replaces_subtree_items :
    ∃ document : Document Unit, document.LiveForest ∧ document.Live ⟨1⟩ ∧
      document.children ⟨1⟩ = [⟨2⟩] ∧ document.children ⟨2⟩ = [⟨3⟩] ∧
      document.listenersFor ⟨3⟩ "click" = [()] ∧ document.listenersFor body "click" = [()] ∧
      document.Settled (document.setTextContent ⟨1⟩ "none") ⟨1⟩ "none" ∧
      (document.setTextContent ⟨1⟩ "none").children ⟨1⟩ = [⟨2⟩] ∧
      (document.setTextContent ⟨1⟩ "none").released = [⟨3⟩] := by
  have start : Built (initial : Document Unit) 1 := .initial
  have list := start.edit (.create (.element "ul")) trivial
  have listed := list.edit (.append body ⟨1⟩)
    ⟨by decide, by decide, by decide, not_within_of_childless (by decide) (by decide)⟩
  have item := listed.edit (.create (.element "li")) trivial
  have items := item.edit (.append ⟨1⟩ ⟨2⟩)
    ⟨by decide, by decide, by decide, not_within_of_childless (by decide) (by decide)⟩
  have word := items.edit (.create (.text "a")) trivial
  have words := word.edit (.append ⟨2⟩ ⟨3⟩)
    ⟨by decide, by decide, by decide, not_within_of_childless (by decide) (by decide)⟩
  have heard := words.edit (.listen ⟨3⟩ "click" ()) (show Live _ _ by decide)
  have above := heard.edit (.listen body "click" ()) (show Live _ _ by decide)
  have forest := above.kept.wellFormed.liveForest
  exact ⟨_, forest, by decide, by decide, by decide, by decide, by decide,
    setTextContent_replaces_subtree forest (by decide) "none", by decide, by decide⟩

end ReactiveView.Document
