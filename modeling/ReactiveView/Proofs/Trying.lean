import ReactiveView.Proofs.Compiled
import ReactiveView.Proofs.Faults
import ReactiveView.Proofs.Mounting
import ReactiveView.Proofs.Undoing

/-!
# A compilation that fails leaves nothing

The bindings that the walk over a tree names are made in order. The first one that gives no
value ends the compilation with its error, and those made before it are dropped, so that all
registries are as they were.
-/

namespace ReactiveView

set_option autoImplicit false

variable {κ σ : Type}

namespace Blueprint

def failure? (state : State κ σ) (blueprint : Blueprint κ) : Option Error :=
  match blueprint.outcome state with
  | .ok _ => none
  | .error error => some error

theorem failure?_eq_some_iff {state : State κ σ} {blueprint : Blueprint κ} {error : Error} :
    blueprint.failure? state = some error ↔ blueprint.outcome state = .error error := by
  unfold failure?
  cases blueprint.outcome state <;> simp

theorem failure?_eq_none_iff {state : State κ σ} {blueprint : Blueprint κ} :
    blueprint.failure? state = none ↔ ∃ value, blueprint.outcome state = .ok value := by
  unfold failure?
  cases blueprint.outcome state <;> simp

end Blueprint

namespace State

variable {state start later final : State κ σ} {plan first second : List (Blueprint κ)}
  {ids : List SubscriberId}

/-- The error of the first binding of a plan that gives no value. -/
def firstFailure? (state : State κ σ) (plan : List (Blueprint κ)) : Option Error :=
  plan.findSome? (fun blueprint => blueprint.failure? state)

theorem firstFailure?_append : state.firstFailure? (first ++ second) =
    (state.firstFailure? first).or (state.firstFailure? second) :=
  List.findSome?_append

/-- It depends on the data only, and on whether an evaluation is in progress. -/
theorem firstFailure?_congr (plain : ∀ blueprint ∈ plan, blueprint.callsNone = true)
    (data : state.store.SameData later.store) (observer : later.observer = state.observer) :
    later.firstFailure? plan = state.firstFailure? plan := by
  unfold firstFailure?
  induction plan with
  | nil => rfl
  | cons blueprint rest induction =>
      have same := (Formula.determined_reading blueprint.context blueprint.formula
        (plain blueprint List.mem_cons_self)).sameData data
      rw [List.findSome?_cons, List.findSome?_cons,
        induction fun other member => plain other (List.mem_cons_of_mem _ member)]
      simp only [Blueprint.failure?, Blueprint.outcome, observer, same]

/-- The bindings of a plan have been made in order, or none is left of those before the first
one that fails. -/
def Tries (state : State κ σ) (plan : List (Blueprint κ)) : Course κ σ (List SubscriberId) → Prop
  | .ended (.ok ids) later => state.firstFailure? plan = none ∧ state.Enlists later ids
  | .ended (.error error) later =>
      state.firstFailure? plan = some error ∧ state.Reverts later
  | .stopped _ => False

theorem Tries.none (same : state.SameCore later) : state.Tries [] (.ended (.ok []) later) :=
  ⟨rfl, .sameCore same⟩

theorem Tries.after {course : Course κ σ (List SubscriberId)}
    (plain : ∀ blueprint ∈ plan, blueprint.callsNone = true) (same : state.SameCore start)
    (tries : start.Tries plan course) : state.Tries plan course := by
  have failure : start.firstFailure? plan = state.firstFailure? plan :=
    firstFailure?_congr plain (same.store ▸ .refl _) same.observer
  cases course with
  | stopped later => exact tries
  | ended outcome later =>
      cases outcome with
      | ok ids =>
          have whole := (Enlists.sameCore same).trans tries.2
          exact ⟨failure ▸ tries.1, whole⟩
      | error error =>
          refine ⟨failure ▸ tries.1, ?_, ?_⟩
          · intro registry
            rw [tries.2.registries registry, same.store]
          · intro id before
            rw [tries.2.earlier id (same.subscribers ▸ before), same.subscriber?]

end State

namespace Engine

variable {invoke : Invoke κ σ} {context : Context κ} {state : State κ σ}
  {plan first second : List (Blueprint κ)}

/-- What does not concern bindings may come afterwards. -/
theorem tries_bind {body : Engine κ σ (List SubscriberId)}
    {rest : List SubscriberId → Engine κ σ (List SubscriberId)}
    (quiet : ∀ made later, ∃ final, rest made later = .ended (.ok made) final ∧
      later.SameCore final)
    (tries : state.Tries plan (body state)) : state.Tries plan ((body >>= rest) state) := by
  cases ran : body state with
  | stopped later =>
      rw [ran] at tries
      exact tries.elim
  | ended outcome later =>
      rw [ran] at tries
      cases outcome with
      | ok made =>
          obtain ⟨final, ended, same⟩ := quiet made later
          rw [bind_of_ok ran, ended]
          have whole := tries.2.trans (.sameCore same)
          rw [List.append_nil] at whole
          exact ⟨tries.1, whole⟩
      | error error =>
          rw [bind_of_error ran]
          exact tries

/-- A failure of the second part takes back what the first part has made. -/
theorem tries_makeBoth {body body' : Engine κ σ (List SubscriberId)}
    (plain : ∀ blueprint ∈ second, blueprint.callsNone = true)
    (here : state.Tries first (body state))
    (next : ∀ made between, body state = .ended (.ok made) between →
      state.Enlists between made → between.Tries second (body' between)) :
    state.Tries (first ++ second) (makeBoth body body' state) := by
  unfold makeBoth
  cases ran : body state with
  | stopped later =>
      rw [ran] at here
      exact here.elim
  | ended outcome between =>
      rw [ran] at here
      cases outcome with
      | error error =>
          rw [bind_of_error ran]
          refine ⟨?_, here.2⟩
          rw [State.firstFailure?_append, here.1, Option.some_or]
      | ok made =>
          obtain ⟨none, enlists⟩ := here
          have after := next made between ran enlists
          have failure : state.firstFailure? (first ++ second) = between.firstFailure? second := by
            rw [State.firstFailure?_append, none, Option.none_or,
              State.firstFailure?_congr plain enlists.data enlists.observer]
          rw [bind_of_ok ran]
          cases ran' : body' between with
          | stopped later =>
              rw [ran'] at after
              exact after.elim
          | ended outcome later =>
              rw [ran'] at after
              have tried : attempt body' between = .ended (.ok outcome) later := by
                simp only [attempt, ran']
              rw [bind_of_ok tried]
              cases outcome with
              | ok others => exact ⟨failure.trans after.1, enlists.trans after.2⟩
              | error error => exact ⟨failure.trans after.1, enlists.reverts after.2⟩

theorem tries_make {blueprint : Blueprint κ} {spot : Spot}
    {rest : SubscriberId → Engine κ σ (List SubscriberId)} (enrolled : state.Enrolled)
    (plain : blueprint.callsNone = true) (sets : blueprint.reaction.spot? = some spot)
    (quiet : ∀ id later, ∃ final, rest id later = .ended (.ok [id]) final ∧ later.SameCore final) :
    state.Tries [blueprint] ((blueprint.make invoke >>= rest) state) := by
  cases given : blueprint.outcome state with
  | error error =>
      obtain ⟨later, made, reverts⟩ := make_of_error invoke enrolled plain given
      rw [bind_of_error made]
      exact ⟨by simp [State.firstFailure?, Blueprint.failure?, given], reverts⟩
  | ok value =>
      obtain ⟨later, made, enlists⟩ := make_of_ok invoke enrolled plain sets given
      obtain ⟨final, ended, same⟩ := quiet state.next later
      rw [bind_of_ok made, ended]
      exact ⟨by simp [State.firstFailure?, Blueprint.failure?, given],
        enlists.trans (.sameCore same)⟩

section Node

variable {target : NodeId} (enrolled : state.Enrolled)

include enrolled

theorem tries_expression {source : String} {reaction : Reaction κ} {spot : Spot}
    {rest : Expression → SubscriberId → Engine κ σ (List SubscriberId)}
    (plain : (Formula.expression (Directive.spelled source)).callsNone context.methods = true)
    (sets : reaction.spot? = some spot)
    (quiet : ∀ id later, ∃ final,
      rest (Directive.spelled source) id later = .ended (.ok [id]) final ∧
        later.SameCore final) :
    state.Tries [⟨source, .expression (Directive.spelled source), context, reaction⟩] ((do
      let expression ← parseOrLiteral source
      let id ← bindFormula invoke source (.expression expression) context reaction
      rest expression id) state) := by
  let blueprint : Blueprint κ :=
    ⟨source, .expression (Directive.spelled source), context, reaction⟩
  obtain ⟨parsed, parses, same⟩ := parseOrLiteral_ends source state
  rw [bind_of_ok parses]
  have enrolled' : parsed.Enrolled := enrolled.sameCore same.toSameCore
  have tries : parsed.Tries [blueprint]
      ((blueprint.make invoke >>= rest (Directive.spelled source)) parsed) :=
    tries_make enrolled' plain sets quiet
  exact tries.after (List.forall_mem_singleton.mpr plain) same.toSameCore

theorem tries_compileDirective {directive : Directive}
    (plain : ∀ blueprint, directive.blueprint? context target = some blueprint →
      blueprint.callsNone = true) :
    state.Tries (directive.blueprint? context target).toList
      (compileDirective invoke context target directive state) := by
  cases directive with
  | text source =>
      exact tries_expression enrolled (plain _ rfl) rfl
        (fun id later => ⟨later, rfl, .refl later⟩)
  | bind property source =>
      exact tries_expression enrolled (plain _ rfl) rfl
        (fun id later => ⟨later, rfl, .refl later⟩)
  | model property source =>
      apply tries_expression enrolled (plain _ rfl) rfl
      intro id later
      cases (Directive.spelled source).path? with
      | none => exact ⟨later.warn (.notAPath source target), rfl, rfl, rfl, rfl⟩
      | some path => exact ⟨later.changeDocument _, rfl, rfl, rfl, rfl⟩
  | event name source =>
      rw [compileDirective, compileEvent]
      cases Handler.parse source with
      | unresolved unknown => exact .none ⟨rfl, rfl, rfl⟩
      | method method arguments => exact .none ⟨rfl, rfl, rfl⟩

theorem tries_compileAttribute {entry : String × String}
    (plain : ∀ blueprint ∈ Directive.blueprints context target [entry],
      blueprint.callsNone = true) :
    state.Tries (Directive.blueprints context target [entry])
      (compileAttribute invoke context target entry state) := by
  unfold compileAttribute
  cases parsed : Directive.parse? entry.1 entry.2 with
  | none =>
      have none : Directive.blueprints context target [entry] = [] := by
        simp [Directive.blueprints, parsed]
      rw [none]
      by_cases long : Directive.isLongForm entry.1
      · simp only [long, if_true]
        exact .none ⟨rfl, rfl, rfl⟩
      · simp only [long, if_false, Bool.false_eq_true]
        exact .none (.refl state)
  | some directive =>
      rw [Directive.blueprints_of_some context target parsed] at plain ⊢
      apply tries_bind
      · exact fun made later => ⟨later.changeDocument _, rfl, rfl, rfl, rfl⟩
      · exact tries_compileDirective enrolled
          (fun blueprint found => plain blueprint (Option.mem_toList.mpr found))

theorem tries_compileAttributes {entries : List (String × String)}
    (plain : ∀ blueprint ∈ Directive.blueprints context target entries,
      blueprint.callsNone = true) :
    state.Tries (Directive.blueprints context target entries)
      (makeEach (compileAttribute invoke context target) entries state) := by
  induction entries generalizing state with
  | nil => exact .none (.refl state)
  | cons entry rest induction =>
      rw [← List.singleton_append, Directive.blueprints_append] at plain ⊢
      obtain ⟨here, others⟩ := List.forall_mem_append.mp plain
      apply tries_makeBoth others
      · exact tries_compileAttribute enrolled here
      · exact fun made between _ enlists => induction (enlists.enrolled enrolled) others

theorem tries_compileText {content : String} (live : state.document.Live target)
    (kind : (state.document.node target).kind = .text content)
    (plain : ∀ blueprint ∈ (state.document.node target).blueprints context target,
      blueprint.callsNone = true) :
    state.Tries ((state.document.node target).blueprints context target)
      (compileText invoke context target state) := by
  have spelled : state.document.textContent target = content := by
    apply Document.textContent_of_spells live
    rw [Document.Spells, Document.kind, kind]
    rfl
  have looked : (look (fun state => state.document.textContent target) : Engine κ σ String) state =
      .ended (.ok content) state := by
    simp only [look, spelled]
  have blueprints : (state.document.node target).blueprints context target =
      (Template.parse? content).toList.map (fun template =>
        ⟨content, .template template, context, .renderedText target⟩) := by
    rw [Node.blueprints, kind]
  obtain ⟨parsed, parses, same⟩ := parseTemplate_ends content state
  rw [blueprints] at plain ⊢
  rw [compileText, bind_of_ok looked, bind_of_ok parses]
  cases found : Template.parse? content with
  | none => exact .none same.toSameCore
  | some template =>
      let blueprint : Blueprint κ :=
        ⟨content, .template template, context, .renderedText target⟩
      rw [found] at plain
      have enrolled' : parsed.Enrolled := enrolled.sameCore same.toSameCore
      have tries : parsed.Tries [blueprint]
          ((blueprint.make invoke >>= fun id => pure [id]) parsed) :=
        tries_make enrolled' (plain _ (List.mem_singleton_self _)) rfl
          (fun id later => ⟨later, rfl, .refl later⟩)
      exact tries.after plain same.toSameCore

end Node

section Walk

variable {reference : Document (Listener κ)} {child parent : NodeId} {depth bound : Nat}

theorem tries_children {make : NodeId → Engine κ σ (List SubscriberId)}
    (reference_wellFormed : reference.WellFormed) {children : List NodeId}
    (listed : ∀ child ∈ children, child ∈ reference.children parent) (distinct : children.Nodup)
    (plain : ∀ blueprint ∈
      reference.blueprints context (children.flatMap (reference.visit bound)),
        blueprint.callsNone = true)
    (each : ∀ child ∈ children, ∀ state : State κ σ, state.document.WellFormed → state.Enrolled →
      reference.Agrees state.document (reference.Within child) →
      state.Tries (reference.blueprints context (reference.visit bound child)) (make child state) ∧
      ∀ made later, make child state = .ended (.ok made) later → later.document.WellFormed ∧
        state.document.KeptOutside later.document (reference.Within child))
    (wellFormed : state.document.WellFormed) (enrolled : state.Enrolled)
    (agrees : ∀ child ∈ children, reference.Agrees state.document (reference.Within child)) :
    state.Tries (reference.blueprints context (children.flatMap (reference.visit bound)))
      (makeEach make children state) := by
  induction children generalizing state with
  | nil => exact .none (.refl state)
  | cons child rest induction =>
      obtain ⟨apart, distinct'⟩ := List.nodup_cons.mp distinct
      have split : reference.blueprints context ((child :: rest).flatMap (reference.visit bound)) =
          reference.blueprints context (reference.visit bound child) ++
            reference.blueprints context (rest.flatMap (reference.visit bound)) := by
        rw [Document.blueprints, List.flatMap_cons, List.flatMap_append]
        rfl
      rw [split] at plain ⊢
      have plain' := (List.forall_mem_append.mp plain).2
      have listed' : ∀ other ∈ rest, other ∈ reference.children parent :=
        fun other member => listed other (List.mem_cons_of_mem _ member)
      obtain ⟨here, kept⟩ := each child List.mem_cons_self state wellFormed enrolled
        (agrees child List.mem_cons_self)
      apply tries_makeBoth plain' here
      intro made between ran enlists
      obtain ⟨wellFormed', outside⟩ := kept made between ran
      exact induction listed' distinct' plain'
        (fun other member => each other (List.mem_cons_of_mem _ member)) wellFormed'
        (enlists.enrolled enrolled)
        (Document.Agrees.siblings reference_wellFormed (listed child List.mem_cons_self) listed'
          apart (fun other member => agrees other (List.mem_cons_of_mem _ member)) outside)

/-- Wherever all that is below a node is as the reference has it, what the walk names there is
tried in order. -/
def TriesBelow (invoke : Invoke κ σ) (context : Context κ) (reference : Document (Listener κ))
    (bound depth : Nat) (parent : NodeId) : Prop :=
  ∀ state : State κ σ, state.document.WellFormed → state.Enrolled →
    state.document.children parent = reference.children parent →
    (∀ child ∈ reference.children parent,
      reference.Agrees state.document (reference.Within child)) →
    state.Tries (reference.blueprints context (reference.walkWithin bound parent))
      (compileBelow invoke context depth parent state)

section Child

variable (reference_wellFormed : reference.WellFormed)
  (deeper : (reference.node child).descends = true →
    TriesBelow invoke context reference bound depth child)
  (plain : ∀ blueprint ∈ reference.blueprints context (reference.visit bound child),
    blueprint.callsNone = true)
  (wellFormed : state.document.WellFormed) (enrolled : state.Enrolled)
  (agrees : reference.Agrees state.document (reference.Within child))

include reference_wellFormed deeper plain wellFormed enrolled agrees

theorem tries_element {tag : String} (kind : (reference.node child).kind = .element tag) :
    state.Tries (reference.blueprints context (reference.visit bound child))
      (makeBoth (makeEach (compileAttribute invoke context child)
          (reference.node child).attributes.entries)
        (if ownsText (reference.node child).attributes.entries then pure []
          else compileBelow invoke context depth child) state) := by
  have live := (agrees child .refl).1
  have entries : (reference.node child).blueprints context child =
      Directive.blueprints context child (reference.node child).attributes.entries := by
    rw [Node.blueprints, kind]
  have descends : (reference.node child).descends =
      !ownsText (reference.node child).attributes.entries := by
    rw [Node.descends, kind]
    rfl
  rw [Document.blueprints_visit] at plain ⊢
  obtain ⟨own, below⟩ := List.forall_mem_append.mp plain
  have attributes : state.Tries ((reference.node child).blueprints context child)
      (makeEach (compileAttribute invoke context child)
        (reference.node child).attributes.entries state) :=
    entries ▸ tries_compileAttributes enrolled (entries ▸ own)
  apply tries_makeBoth below attributes
  intro made between ran enlists
  cases owns : ownsText (reference.node child).attributes.entries with
  | true =>
      rw [descends, owns]
      exact .none (.refl between)
  | false =>
      obtain ⟨bindings, tends⟩ := tends_element kind wellFormed live
        (fun blueprint member => (Node.spot_of_blueprints member).1 ▸ own blueprint member) ran
      rw [owns, Bool.not_false] at descends
      have before := tends.compiles agrees
      obtain ⟨children, agrees'⟩ := before.inward reference_wellFormed descends agrees
      rw [if_pos descends]
      exact deeper descends between before.wellFormed (enlists.enrolled enrolled) children agrees'

/-- A child and what is below it, if what is below is tried as the reference has it. -/
theorem tries_child :
    state.Tries (reference.blueprints context (reference.visit bound child))
      (compileChild invoke context depth child state) := by
  obtain ⟨live, here⟩ := agrees child .refl
  have looked : (look (fun state => state.document.node child) : Engine κ σ Node) state =
      .ended (.ok (reference.node child)) state := by
    simp only [look, here]
  rw [compileChild, bind_of_ok looked]
  cases kind : (reference.node child).kind with
  | element tag =>
      exact tries_element reference_wellFormed deeper plain wellFormed enrolled agrees kind
  | comment content =>
      have none : (reference.node child).blueprints context child = [] ∧
          (reference.node child).descends = false := by
        rw [Node.blueprints, Node.descends, kind]
        exact ⟨rfl, rfl⟩
      rw [Document.blueprints_visit, none.1, none.2]
      exact .none (.refl state)
  | text content =>
      have stays : (reference.node child).descends = false := by
        rw [Node.descends, kind]
        rfl
      rw [Document.blueprints_visit] at plain ⊢
      have own := (List.forall_mem_append.mp plain).1
      rw [stays, if_neg Bool.false_ne_true, List.append_nil]
      rw [← here] at kind own ⊢
      exact tries_compileText enrolled live kind own

end Child

theorem tries_compileBelow (reference_wellFormed : reference.WellFormed)
    (enough : reference.Bounded depth parent) (bounded : reference.Bounded bound parent)
    (plain : ∀ blueprint ∈ reference.blueprints context (reference.walkWithin bound parent),
      blueprint.callsNone = true) :
    TriesBelow invoke context reference bound depth parent := by
  intro state wellFormed enrolled children agrees
  induction depth generalizing bound parent state with
  | zero => exact enough.elim
  | succ depth induction =>
      have positive : bound ≠ 0 := by
        rintro rfl
        exact bounded
      obtain ⟨bound, rfl⟩ := Nat.exists_eq_succ_of_ne_zero positive
      have looked : (look (fun state => state.document.children parent) :
          Engine κ σ (List NodeId)) state = .ended (.ok (reference.children parent)) state := by
        simp only [look, children]
      rw [compileBelow_succ, bind_of_ok looked]
      refine tries_children reference_wellFormed (fun _ member => member)
        (reference_wellFormed.distinct parent) plain ?_ wellFormed enrolled agrees
      intro child listed state wellFormed enrolled agrees
      have plain' : ∀ blueprint ∈ reference.blueprints context (reference.visit bound child),
          blueprint.callsNone = true := by
        intro blueprint member
        obtain ⟨id, visited, made⟩ := List.mem_flatMap.mp member
        exact plain blueprint
          (List.mem_flatMap.mpr ⟨id, List.mem_flatMap.mpr ⟨child, listed, visited⟩, made⟩)
      constructor
      · apply tries_child reference_wellFormed _ plain' wellFormed enrolled agrees
        intro descends state wellFormed enrolled children agrees
        rw [Document.blueprints_visit, if_pos descends] at plain'
        exact induction (enough child listed) (bounded child listed)
          (List.forall_mem_append.mp plain').2 state wellFormed enrolled children agrees
      · intro made later ended
        rw [Document.blueprints_visit] at plain'
        obtain ⟨own, below⟩ := List.forall_mem_append.mp plain'
        have deeper (descends : (reference.node child).descends = true) :
            CompilesBelow invoke context reference bound depth child := by
          rw [if_pos descends] at below
          exact compiles_compileBelow reference_wellFormed depth bound (bounded child listed)
            (fun blueprint member => (Document.mem_blueprints member).1 ▸ below blueprint member)
        obtain ⟨bindings, compiles⟩ := compiles_child wellFormed agrees
          (fun blueprint member => (Node.spot_of_blueprints member).1 ▸ own blueprint member)
          reference_wellFormed deeper ended
        exact ⟨compiles.wellFormed, compiles.kept⟩

/-- What the walk over a tree names is tried in order. -/
theorem tries_tree {root : NodeId} (wellFormed : state.document.WellFormed)
    (enrolled : state.Enrolled) (live : state.document.Live root)
    (deep : state.document.nodes.size < depth)
    (plain : ∀ blueprint ∈ state.document.blueprints context (state.document.walk root),
      blueprint.callsNone = true) :
    state.Tries (state.document.blueprints context (state.document.walk root))
      (compileBelow invoke context depth root state) := by
  have bounded := wellFormed.forest.bounded live.1
  refine tries_compileBelow wellFormed (bounded.mono deep) bounded plain state wellFormed enrolled
    rfl ?_
  exact fun child listed id within => ⟨wellFormed.live_of_below (within.below listed), rfl⟩

end Walk

end Engine

end ReactiveView
