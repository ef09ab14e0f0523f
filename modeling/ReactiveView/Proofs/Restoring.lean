import ReactiveView.Proofs.Subscriptions
import ReactiveView.Proofs.Trying

/-!
# What fails leaves no subscription

A compilation fails where an expression of its tree gives no value, with the error of the
first one, and then each registry lists whom it listed before. So it is with a binding that
does not come into being, apart from what its own reaction did, and with a view that is
mounted and dropped.
-/

namespace ReactiveView

set_option autoImplicit false

variable {κ σ : Type}

namespace Blueprint

variable {invoke : Invoke κ σ} {blueprint : Blueprint κ} {state : State κ σ}
  {outcome : Except Error Value}

/-- Its formula, evaluated on the data of the state, ends like this. -/
def Gives (invoke : Invoke κ σ) (blueprint : Blueprint κ) (state : State κ σ)
    (outcome : Except Error Value) : Prop :=
  Engine.evaluateFormula invoke blueprint.context blueprint.formula state = .ended outcome state

theorem gives_iff (plain : blueprint.callsNone = true) (idle : state.observer = none) :
    blueprint.Gives invoke state outcome ↔ blueprint.outcome state = outcome := by
  rw [Gives, Engine.evaluateFormula_idle invoke plain idle, Blueprint.outcome, idle]
  constructor
  · intro same
    injection same
  · rintro rfl
    rfl

end Blueprint

namespace State

variable {invoke : Invoke κ σ} {state later : State κ σ} {plan : List (Blueprint κ)}
  {error : Error}

theorem firstFailure?_eq_some_iff : state.firstFailure? plan = some error ↔
    ∃ before blueprint after, plan = before ++ blueprint :: after ∧
      (∀ earlier ∈ before, ∃ value, earlier.outcome state = .ok value) ∧
      blueprint.outcome state = .error error := by
  simp only [firstFailure?, List.findSome?_eq_some_iff, Blueprint.failure?_eq_some_iff,
    Blueprint.failure?_eq_none_iff]
  constructor
  · rintro ⟨before, blueprint, after, split, fails, earlier⟩
    exact ⟨before, blueprint, after, split, earlier, fails⟩
  · rintro ⟨before, blueprint, after, split, earlier, fails⟩
    exact ⟨before, blueprint, after, split, fails, earlier⟩

theorem exists_firstFailure?_iff : (∃ error, state.firstFailure? plan = some error) ↔
    ∃ blueprint ∈ plan, ∃ error, blueprint.outcome state = .error error := by
  rw [← Option.isSome_iff_exists, firstFailure?, List.findSome?_isSome_iff]
  simp only [Option.isSome_iff_exists, Blueprint.failure?_eq_some_iff]

theorem firstFailure?_of_observed {observer : Observer} (observed : state.observer = some observer) :
    state.firstFailure? plan = if plan = [] then none else some .nestedEvaluation := by
  cases plan with
  | nil => rfl
  | cons blueprint rest =>
      simp [firstFailure?, Blueprint.failure?, Blueprint.outcome, observed]

/-- No failure is about the syntax of a source. -/
theorem firstFailure?_ne_parse (source : String) :
    state.firstFailure? plan ≠ some (.parse source) := by
  intro failed
  obtain ⟨-, blueprint, -, -, -, fails⟩ := firstFailure?_eq_some_iff.mp failed
  unfold Blueprint.outcome at fails
  split at fails
  · cases fails
  · cases Formula.faultsOnly_reading blueprint.context blueprint.formula state.store _ fails

/-- How the compilation of a plan ends, and what it leaves in registries. -/
structure Restores (invoke : Invoke κ σ) (state : State κ σ) (plan : List (Blueprint κ))
    (course : Course κ σ (List SubscriberId)) : Prop where
  ends : ∃ outcome later, course = .ended outcome later
  /-- It fails exactly where some expression gives no value. -/
  fails_iff : state.observer = none →
    ((∃ error later, course = .ended (.error error) later) ↔
      ∃ blueprint ∈ plan, ∃ error, blueprint.Gives invoke state (.error error))
  first : state.observer = none → ∀ error later, course = .ended (.error error) later →
    ∃ before blueprint after, plan = before ++ blueprint :: after ∧
      (∀ earlier ∈ before, ∃ value, earlier.Gives invoke state (.ok value)) ∧
      blueprint.Gives invoke state (.error error)
  /-- During an evaluation anything that is to be bound is refused. -/
  refused : ∀ observer, state.observer = some observer → ∀ error,
    (∃ later, course = .ended (.error error) later) ↔ error = .nestedEvaluation ∧ plan ≠ []
  syntactic : ∀ source later, course ≠ .ended (.error (.parse source)) later
  restored : ∀ error later, course = .ended (.error error) later → state.SameRegistries later
  dropped : ∀ ids later, course = .ended (.ok ids) later →
    ∃ final, Engine.dropAll ids later = .ended (.ok ()) final ∧ state.SameRegistries final

/-- Nothing is left of a plan once all that it made is dropped. -/
theorem Enlists.dropped {ids : List SubscriberId} (enlists : state.Enlists later ids) :
    ∃ final, Engine.dropAll ids later = .ended (.ok ()) final ∧ state.SameRegistries final :=
  ⟨_, rfl, (enlists.reverts ⟨fun _ => rfl, fun _ _ => rfl⟩).registries⟩

namespace Tries

variable {course : Course κ σ (List SubscriberId)}

theorem ends (tries : state.Tries plan course) : ∃ outcome later, course = .ended outcome later := by
  cases course with
  | ended outcome later => exact ⟨outcome, later, rfl⟩
  | stopped later => exact tries.elim

theorem error_iff (tries : state.Tries plan course) :
    (∃ later, course = .ended (.error error) later) ↔ state.firstFailure? plan = some error := by
  constructor
  · rintro ⟨later, rfl⟩
    exact tries.1
  · intro failed
    obtain ⟨outcome, later, rfl⟩ := tries.ends
    cases outcome with
    | ok ids => cases tries.1.symm.trans failed
    | error error' =>
        cases tries.1.symm.trans failed
        exact ⟨later, rfl⟩

theorem restores (tries : state.Tries plan course)
    (plain : ∀ blueprint ∈ plan, blueprint.callsNone = true) :
    state.Restores invoke plan course where
  ends := tries.ends
  fails_iff := by
    intro idle
    rw [exists_congr fun error => tries.error_iff, exists_firstFailure?_iff]
    refine exists_congr fun blueprint => and_congr_right fun member => ?_
    simp only [Blueprint.gives_iff (plain blueprint member) idle]
  first := by
    intro idle error later ended
    obtain ⟨before, blueprint, after, rfl, earlier, fails⟩ :=
      firstFailure?_eq_some_iff.mp (tries.error_iff.mp ⟨later, ended⟩)
    refine ⟨before, blueprint, after, rfl, fun other member => ?_, ?_⟩
    · obtain ⟨value, given⟩ := earlier other member
      exact ⟨value,
        (Blueprint.gives_iff (plain other (List.mem_append_left _ member)) idle).mpr given⟩
    · have member : blueprint ∈ before ++ blueprint :: after :=
        List.mem_append_right _ List.mem_cons_self
      exact (Blueprint.gives_iff (plain blueprint member) idle).mpr fails
  refused := by
    intro observer observed error
    rw [tries.error_iff, firstFailure?_of_observed observed]
    split
    · next empty => simp [empty]
    · next filled => simp [filled, eq_comm]
  syntactic := fun source later ended =>
    firstFailure?_ne_parse source (tries.error_iff.mp ⟨later, ended⟩)
  restored := by
    rintro error later rfl
    exact tries.2.registries
  dropped := by
    rintro ids later rfl
    exact tries.2.dropped

end Tries

/-- A mount that fails leaves all registries as they were, and so does a view that is
dropped. -/
structure RestoresMount (state : State κ σ) (course : Course κ σ (View κ)) : Prop where
  ends : ∃ outcome later, course = .ended outcome later
  restored : ∀ error later, course = .ended (.error error) later → state.SameRegistries later
  dropped : ∀ view later, course = .ended (.ok view) later →
    ∃ final, Engine.dropAll view.bindings later = .ended (.ok ()) final ∧
      state.SameRegistries final

end State

namespace Engine

variable (invoke : Invoke κ σ) {state : State κ σ} {depth : Nat}

section Restored

variable (enrolled : state.Enrolled) (wellFormed : state.document.WellFormed)
  (deep : state.document.nodes.size < depth)

include enrolled wellFormed deep

theorem restores_compileBelow (context : Context κ) {root : NodeId}
    (live : state.document.Live root)
    (plain : ∀ blueprint ∈ state.document.blueprints context (state.document.walk root),
      blueprint.callsNone = true) :
    state.Restores invoke (state.document.blueprints context (state.document.walk root))
      (compileBelow invoke context depth root state) :=
  (tries_tree wellFormed enrolled live deep plain).restores plain

theorem restores_mountView {selector : String} {data : RecordId} {methods : Dictionary κ}
    (body : state.document.Live Document.body)
    (plain : ∀ mount, state.document.query selector = some mount →
      ∀ blueprint ∈ state.document.blueprints ⟨data, methods⟩ (state.document.walk mount),
        blueprint.callsNone = true) :
    state.RestoresMount (mountView invoke depth selector data methods state) := by
  rw [mountView_eq]
  split
  · exact ⟨⟨_, _, rfl⟩, by rintro _ _ ⟨⟩; exact fun _ => rfl, nofun⟩
  · next mount found =>
      have instruments : state.store.Instruments (state.store.instrument data) :=
        Store.instruments_instrumentFrom state.store _
      have enrolled' : (state.changeStore (·.instrument data)).Enrolled :=
        ⟨instruments.ranged enrolled.ranged, fun registry id member =>
          enrolled.present registry id (instruments.subscribers registry ▸ member)⟩
      have live : state.document.Live mount :=
        wellFormed.live_of_within body (Document.within_of_query found)
      have restores := restores_compileBelow invoke enrolled' wellFormed deep
        ⟨data, methods⟩ live (plain mount found)
      have back {later : State κ σ}
          (same : (state.changeStore (·.instrument data)).SameRegistries later) :
          state.SameRegistries later :=
        fun registry => (same registry).trans (instruments.subscribers registry)
      obtain ⟨outcome, later, ran⟩ := restores.ends
      rw [ran]
      cases outcome with
      | error error =>
          refine ⟨⟨_, _, rfl⟩, ?_, nofun⟩
          rintro _ _ ⟨⟩
          exact back (restores.restored error later ran)
      | ok bindings =>
          refine ⟨⟨_, _, rfl⟩, nofun, ?_⟩
          rintro _ _ ⟨⟩
          obtain ⟨final, dropped, same⟩ := restores.dropped bindings later ran
          exact ⟨final, dropped, back same⟩

end Restored

end Engine

/-- Registries are as they were after a compilation that failed, after a mount that failed
or whose view was dropped, and, but for what its own reaction did, after a binding failed
to come into being. -/
theorem failures_leave_no_subscriptions (code : κ → Occasion κ → Program κ σ Value) (depth : Nat)
    {state : State κ σ} (enrolled : state.Enrolled) (wellFormed : state.document.WellFormed)
    (deep : state.document.nodes.size < depth) :
    (∀ context root, state.document.Live root →
      (∀ blueprint ∈ state.document.blueprints context (state.document.walk root),
        blueprint.callsNone = true) →
      state.Restores (Program.invoke code depth)
        (state.document.blueprints context (state.document.walk root))
        (Engine.compileBelow (Program.invoke code depth) context depth root state)) ∧
    (∀ blueprint error later, blueprint.callsNone = true →
      blueprint.make (Program.invoke code depth) state = .ended (.error error) later →
      Engine.Undone (Program.invoke code depth) blueprint state later error) ∧
    ∀ selector data methods, state.document.Live Document.body →
      (∀ mount, state.document.query selector = some mount →
        ∀ blueprint ∈ state.document.blueprints ⟨data, methods⟩ (state.document.walk mount),
          blueprint.callsNone = true) →
      state.RestoresMount
        (Engine.mountView (Program.invoke code depth) depth selector data methods state) := by
  refine ⟨?_, ?_, ?_⟩
  · intro context root live plain
    exact Engine.restores_compileBelow _ enrolled wellFormed deep context live plain
  · intro blueprint error later plain failed
    exact Engine.undone_of_make enrolled plain failed
  · intro selector data methods body plain
    exact Engine.restores_mountView _ enrolled wellFormed deep body plain

def refusing : Unit → Occasion Unit → Program Unit Unit Value
  | _, .updated (.bool _) => Program.fail (.method "refuse" "a truth value")
  | _, _ => pure .null

def greeted : Program Unit Unit Unit := do
  let root ← Program.run (.newRecord [("name", .text "Ada")])
  Program.run (.instrument root)
  let _ ← Program.run (.bind "name" (.expression (.identifier "name")) ⟨root, .empty⟩ ())
  pure ()

theorem greeted_uses : greeted.Uses Command.OnBindings := by
  apply Program.uses_bind (Program.uses_run trivial)
  intro root
  apply Program.uses_bind (Program.uses_run trivial)
  intro _
  exact Program.uses_bind (Program.uses_run rfl) (fun _ => trivial)

theorem refusing_uses (body : Unit) (value : Value) :
    (refusing body (.updated value)).Uses Command.OnBindings := by
  unfold refusing
  split <;> trivial

def acquainted : State Unit Unit :=
  (greeted.execute (Program.invoke refusing 6) 6 (State.initial ())).state

def greeting : State Unit Unit := acquainted.changeDocument (fun _ => Form.document)

def misspelled : State Unit Unit :=
  greeting.changeDocument (·.setAttribute ⟨3⟩ ":title" "nmae")

theorem enrolled_greeting : greeting.Enrolled := by
  have coherent : acquainted.Coherent :=
    Program.coherent_execute refusing_uses greeted_uses 6 ()
  have same : acquainted.SameCore greeting := ⟨rfl, rfl, rfl⟩
  exact coherent.enrolled.sameCore same

theorem enrolled_misspelled : misspelled.Enrolled := by
  have same : greeting.SameCore misspelled := ⟨rfl, rfl, rfl⟩
  exact enrolled_greeting.sameCore same

theorem wellFormed_misspelled : misspelled.document.WellFormed :=
  Form.wellFormed_document.change _ (fun _ => rfl) (fun _ => rfl)

/-- The text and the field are bound before the compilation of the form fails, and a binding
is evaluated before its reaction fails. The form that is spelled right can be mounted. -/
theorem failures_leave_no_subscriptions_form :
    misspelled.store.registries = #[[⟨0⟩]] ∧
    (∃ later, Engine.compileBelow (Program.invoke refusing 6) Form.context 6 Document.body
        misspelled = .ended (.error (.unknownIdentifier "nmae")) later ∧
      misspelled.SameRegistries later) ∧
    (∃ blueprint later, blueprint.make (Program.invoke refusing 6) greeting =
        .ended (.error (.method "refuse" "a truth value")) later ∧
      later.store.registries = #[[⟨0⟩]] ∧
      Engine.Undone (Program.invoke refusing 6) blueprint greeting later
        (.method "refuse" "a truth value")) ∧
    ∃ view later final, Engine.mountView (Program.invoke refusing 6) 6 "body" ⟨0⟩ .empty greeting =
        .ended (.ok view) later ∧
      later.store.registries = #[[⟨0⟩, ⟨1⟩, ⟨2⟩, ⟨3⟩]] ∧
      Engine.dropAll view.bindings later = .ended (.ok ()) final ∧
      greeting.SameRegistries final := by
  have fails := (failures_leave_no_subscriptions refusing 6 enrolled_misspelled
    wellFormed_misspelled (by decide +kernel)).1
  obtain ⟨-, bindings, mounts⟩ := failures_leave_no_subscriptions refusing 6 enrolled_greeting
    Form.wellFormed_document (by decide +kernel)
  refine ⟨by decide +kernel, ?_, ?_, ?_⟩
  · have plain : (misspelled.document.blueprints Form.context
        (misspelled.document.walk Document.body)).all Blueprint.callsNone = true := by
      decide +kernel
    have outcome : (Engine.compileBelow (Program.invoke refusing 6) Form.context 6 Document.body
        misspelled).ended?.map Prod.fst = some (.error (.unknownIdentifier "nmae")) := by
      decide +kernel
    have ended := Course.ended_of_outcome outcome
    have restores := fails Form.context Document.body (by decide +kernel)
      (List.all_eq_true.mp plain)
    exact ⟨_, ended, restores.restored _ _ ended⟩
  · let blueprint : Blueprint Unit :=
      ⟨"!name", .expression (.unary .not (.identifier "name")), Form.context, .code ()⟩
    have outcome : (blueprint.make (Program.invoke refusing 6) greeting).ended?.map Prod.fst =
        some (.error (.method "refuse" "a truth value")) := by
      decide +kernel
    have ended := Course.ended_of_outcome outcome
    exact ⟨blueprint, _, ended, by decide +kernel, bindings blueprint _ _ rfl ended⟩
  · have plain : (greeting.document.blueprints Form.context
        (greeting.document.walk Document.body)).all Blueprint.callsNone = true := by
      decide +kernel
    have found : greeting.document.query "body" = some Document.body := by decide +kernel
    have restores := mounts "body" ⟨0⟩ .empty (by decide +kernel) (by
      intro mount here
      cases found.symm.trans here
      exact List.all_eq_true.mp plain)
    have succeeds : ((Engine.mountView (Program.invoke refusing 6) 6 "body" ⟨0⟩ .empty
        greeting).ended?.bind (fun ended => ended.1.toOption)).isSome = true := by
      decide +kernel
    obtain ⟨view, made⟩ := Option.isSome_iff_exists.mp succeeds
    have ended := Course.ended_of_result made
    obtain ⟨final, dropped, same⟩ := restores.dropped view _ ended
    exact ⟨view, _, final, ended, by decide +kernel, dropped, same⟩

/-- A reaction to truth values puts down the flag, and then it fails. -/
def meddling : Unit → Occasion Unit → Program Unit Unit Value
  | _, .updated (.bool _) => do
      Program.run (.write (.field ⟨0⟩ "flag") (.bool false))
      Program.fail (.method "meddle" "done")
  | _, _ => pure .null

def alternatives : Program Unit Unit Unit := do
  let root ← Program.run
    (.newRecord [("flag", .bool true), ("first", .text "a"), ("second", .text "b")])
  Program.run (.instrument root)
  let chosen : Expression :=
    .conditional (.identifier "flag") (.identifier "first") (.identifier "second")
  let _ ← Program.run (.bind "chosen" (.expression chosen) ⟨root, .empty⟩ ())
  pure ()

/-- There is a binding to what the flag chooses. -/
def choosing : State Unit Unit :=
  (alternatives.execute (Program.invoke meddling 2) 2 (State.initial ())).state

def building : Unit → Occasion Unit → Program Unit (Option Error) Value
  | _, .called context _ => do
      match ← (Program.run (.compile context Document.body)).attempt with
      | .ok _ => pure .null
      | .error error => do
          Program.keep (fun _ => some error)
          pure .null
  | _, _ => pure .null

def site : State Unit (Option Error) :=
  { State.initial none with
    store := Form.state.store.instrument ⟨0⟩
    document := Form.document }

/-- A reaction that fails may have moved another binding before. And within an evaluation a
document does not compile, though each of its expressions gives a value. -/
theorem failure_leaves_another_moved :
    (∃ (blueprint : Blueprint Unit) (later : State Unit Unit), blueprint.callsNone = true ∧
      blueprint.make (Program.invoke meddling 2) choosing =
        .ended (.error (.method "meddle" "done")) later ∧
      choosing.store.registries = #[[⟨0⟩], [⟨0⟩], []] ∧
      later.store.registries = #[[⟨0⟩], [], [⟨0⟩]] ∧ ¬ choosing.SameRegistries later) ∧
    (∀ blueprint ∈ site.document.blueprints Form.context (site.document.walk Document.body),
      ∃ value, blueprint.Gives (Program.invoke building 8) site (.ok value)) ∧
    (Engine.bindFormula (Program.invoke building 8) "build()"
      (.expression (.call (.identifier "build") [])) ⟨⟨0⟩, .ofList [("build", ())]⟩ (.code ())
      site).state.host = some .nestedEvaluation := by
  refine ⟨?_, ?_, by decide +kernel⟩
  · let blueprint : Blueprint Unit :=
      ⟨"first == second", .expression (.binary .equal (.identifier "first") (.identifier "second")),
        ⟨⟨0⟩, .empty⟩, .code ()⟩
    have outcome : (blueprint.make (Program.invoke meddling 2) choosing).ended?.map Prod.fst =
        some (.error (.method "meddle" "done")) := by
      decide +kernel
    have moved : (blueprint.make (Program.invoke meddling 2) choosing).state.store.subscribers ⟨1⟩ ≠
        choosing.store.subscribers ⟨1⟩ := by
      decide +kernel
    exact ⟨blueprint, _, rfl, Course.ended_of_outcome outcome, by decide +kernel,
      by decide +kernel, fun same => moved (same ⟨1⟩)⟩
  · have plain : (site.document.blueprints Form.context
        (site.document.walk Document.body)).all Blueprint.callsNone = true := by
      decide +kernel
    have given : site.firstFailure? (site.document.blueprints Form.context
        (site.document.walk Document.body)) = none := by
      decide +kernel
    intro blueprint member
    obtain ⟨value, gives⟩ := Blueprint.failure?_eq_none_iff.mp
      (List.findSome?_eq_none_iff.mp given blueprint member)
    exact ⟨value,
      (Blueprint.gives_iff (List.all_eq_true.mp plain blueprint member) rfl).mpr gives⟩

end ReactiveView
