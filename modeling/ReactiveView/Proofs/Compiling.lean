import ReactiveView.Proofs.Making

/-!
# Compilation follows the walk

A compilation that succeeds makes of a tree what the walk over it says, although it
reads the tree while its bindings already change it: what is done about one node does
not reach the nodes that are visited later.
-/

namespace ReactiveView

set_option autoImplicit false

variable {κ σ : Type}

namespace Directive

def names (entries : List (String × String)) : List String :=
  (entries.filter isRecognised).map Prod.fst

variable (context : Context κ) (node : NodeId)

theorem blueprints_append (first rest : List (String × String)) :
    blueprints context node (first ++ rest) =
      blueprints context node first ++ blueprints context node rest := List.filterMap_append

theorem registrations_append (first rest : List (String × String)) :
    registrations context node (first ++ rest) =
      registrations context node first ++ registrations context node rest := List.filterMap_append

theorem names_append (first rest : List (String × String)) :
    names (first ++ rest) = names first ++ names rest := by
  rw [names, List.filter_append, List.map_append, names, names]

variable {entry : String × String}

theorem names_of_none (unknown : parse? entry.1 entry.2 = none) : names [entry] = [] := by
  simp [names, isRecognised, unknown]

section Recognised

variable {directive : Directive} (parsed : parse? entry.1 entry.2 = some directive)

include parsed

theorem blueprints_of_some :
    blueprints context node [entry] = (directive.blueprint? context node).toList := by
  rw [blueprints, List.filterMap_cons, parsed, Option.bind_some]
  cases directive.blueprint? context node <;> rfl

theorem registrations_of_some :
    registrations context node [entry] = (directive.registration? context node).toList := by
  rw [registrations, List.filterMap_cons, parsed, Option.bind_some]
  cases directive.registration? context node <;> rfl

theorem names_of_some : names [entry] = [entry.1] := by
  simp [names, isRecognised, parsed]

end Recognised

end Directive

namespace State

/-- Two states that differ at most in the warnings and what callers keep for
themselves. -/
structure SameView (state later : State κ σ) : Prop extends SameCore state later where
  document : later.document = state.document

theorem SameView.refl (state : State κ σ) : state.SameView state := ⟨SameCore.refl state, rfl⟩

theorem SameView.trans {state later final : State κ σ} (first : state.SameView later)
    (second : later.SameView final) : state.SameView final :=
  ⟨⟨second.store.trans first.store, second.observer.trans first.observer,
    second.subscribers.trans first.subscribers⟩, second.document.trans first.document⟩

/-- The bindings of one node have been made, its attributes removed, its listeners
added. -/
structure Tends (state later : State κ σ) (target : NodeId) (blueprints : List (Blueprint κ))
    (removed : List String) (added : List (Registration (Listener κ))) (ids : List SubscriberId)
    (bindings : List (Binding κ)) : Prop where
  made : state.Made later ids bindings
  plan : bindings.map Binding.blueprint = blueprints
  sets : ∀ blueprint ∈ blueprints, ∃ spot, blueprint.reaction.spot? = some spot ∧ spot.node = target
  document : state.document.Tended later.document target (Blueprint.spots blueprints) removed added
  displayed : ∀ binding ∈ bindings, ∀ spot, binding.reaction.spot? = some spot →
    (Blueprint.spots blueprints).count spot = 1 → binding.Displayed later.store later.document

variable {state later final : State κ σ} {target : NodeId} {first second : List (Blueprint κ)}
  {removed removed' : List String} {added added' : List (Registration (Listener κ))}
  {ids ids' : List SubscriberId} {bindings bindings' : List (Binding κ)}

theorem mem_spots {binding : Binding κ} {spot : Spot} (member : binding ∈ bindings)
    (sets : binding.reaction.spot? = some spot) :
    spot ∈ Blueprint.spots (bindings.map Binding.blueprint) :=
  List.mem_filterMap.mpr ⟨binding.blueprint, List.mem_map_of_mem member, sets⟩

/-- A spot that occurs once occurs in one of two parts only. -/
theorem single_append {binding : Binding κ} {spot : Spot} (member : binding ∈ bindings)
    (sets : binding.reaction.spot? = some spot)
    (single : (Blueprint.spots (bindings.map Binding.blueprint) ++ Blueprint.spots second).count spot =
      1) :
    (Blueprint.spots (bindings.map Binding.blueprint)).count spot = 1 ∧
      spot ∉ Blueprint.spots second := by
  have here := List.count_pos_iff.mpr (mem_spots member sets)
  rw [List.count_append] at single
  constructor
  · omega
  · exact List.count_eq_zero.mp (by omega)

namespace Tends

theorem refl (wellFormed : state.document.WellFormed) (live : state.document.Live target)
    (same : state.SameView later) : state.Tends later target [] [] [] [] [] where
  made := .sameCore same.toSameCore
  plan := rfl
  sets := fun _ none => absurd none List.not_mem_nil
  document := by
    rw [same.document]
    exact .refl wellFormed live
  displayed := fun _ none => absurd none List.not_mem_nil

theorem trans (wellFormed : state.document.WellFormed)
    (before : state.Tends later target first removed added ids bindings)
    (after : later.Tends final target second removed' added' ids' bindings')
    (here : ∀ entry ∈ added, entry.node = target) :
    state.Tends final target (first ++ second) (removed ++ removed') (added ++ added')
      (ids ++ ids') (bindings ++ bindings') where
  made := before.made.trans after.made
  plan := by rw [List.map_append, before.plan, after.plan]
  sets := by
    intro blueprint member
    rcases List.mem_append.mp member with former | latter
    · exact before.sets blueprint former
    · exact after.sets blueprint latter
  document := by
    rw [Blueprint.spots_append]
    exact before.document.trans wellFormed after.document here
  displayed := by
    intro binding member spot sets single
    rw [Blueprint.spots_append, ← before.plan] at single
    rcases List.mem_append.mp member with former | latter
    · obtain ⟨once, absent⟩ := single_append former sets single
      obtain ⟨spot', sets', about⟩ := before.sets binding.blueprint
        (before.plan ▸ List.mem_map_of_mem former)
      cases sets.symm.trans sets'
      exact (before.displayed binding former spot sets (before.plan ▸ once)).tended sets
        (fun value _ => after.made.data.text value) before.document.wellFormed
        (about.symm ▸ after.document) absent
    · rw [List.count_append, ← after.plan] at single
      have once := List.count_pos_iff.mpr (mem_spots latter sets)
      exact after.displayed binding latter spot sets (by rw [← after.plan]; omega)

end Tends

end State

namespace Engine

variable {invoke : Invoke κ σ} {context : Context κ} {state later : State κ σ} {target : NodeId}
  {ids : List SubscriberId}

theorem ok_of_makeBoth {first second : Engine κ σ (List SubscriberId)}
    (ended : makeBoth first second state = .ended (.ok ids) later) :
    ∃ made others middle, first state = .ended (.ok made) middle ∧
      second middle = .ended (.ok others) later ∧ ids = made ++ others := by
  obtain ⟨made, middle, ran, ended⟩ := ok_of_bind ended
  obtain ⟨outcome, after, tried, ended⟩ := ok_of_bind ended
  have ran' := ok_of_attempt tried
  cases outcome with
  | error error =>
      obtain ⟨_, _, _, ended⟩ := ok_of_bind ended
      cases ended
  | ok others =>
      cases ended
      exact ⟨made, others, middle, ran, ran', rfl⟩

theorem parseOrLiteral_ends (source : String) (state : State κ σ) :
    ∃ later, parseOrLiteral source state = .ended (.ok (Directive.spelled source)) later ∧
      state.SameView later := by
  unfold parseOrLiteral Directive.spelled
  cases Expression.parse? source with
  | some expression => exact ⟨state, rfl, .refl state⟩
  | none => exact ⟨state.warn (.takenLiterally source), rfl, ⟨rfl, rfl, rfl⟩, rfl⟩

theorem ok_of_parseOrLiteral {source : String} {expression : Expression}
    (ended : parseOrLiteral source state = .ended (.ok expression) later) :
    expression = Directive.spelled source ∧ state.SameView later := by
  obtain ⟨final, ends, same⟩ := parseOrLiteral_ends source state
  cases ended.symm.trans ends
  exact ⟨rfl, same⟩

theorem parseTemplate_ends (text : String) (state : State κ σ) :
    ∃ later, parseTemplate text state = .ended (.ok (Template.parse? text)) later ∧
      state.SameView later := by
  refine ⟨_, rfl, ?_⟩
  generalize Template.warnings text = warnings
  induction warnings generalizing state with
  | nil => exact .refl state
  | cons warning rest induction =>
      have first : state.SameView (state.warn warning) := ⟨⟨rfl, rfl, rfl⟩, rfl⟩
      exact first.trans (induction _)

theorem ok_of_parseTemplate {text : String} {template : Option Template}
    (ended : parseTemplate text state = .ended (.ok template) later) :
    template = Template.parse? text ∧ state.SameView later := by
  obtain ⟨final, ends, same⟩ := parseTemplate_ends text state
  cases ended.symm.trans ends
  exact ⟨rfl, same⟩

section Node

variable (wellFormed : state.document.WellFormed) (live : state.document.Live target)

include wellFormed live

theorem tends_bindFormula {source : String} {formula : Formula} {reaction : Reaction κ}
    {spot : Spot} {id : SubscriberId} (plain : formula.callsNone context.methods = true)
    (sets : reaction.spot? = some spot) (here : spot.node = target)
    (ended : bindFormula invoke source formula context reaction state = .ended (.ok id) later) :
    ∃ bindings, state.Tends later target [⟨source, formula, context, reaction⟩] [] [] [id]
      bindings := by
  obtain ⟨binding, value, setting, made, plan, handed, set, document⟩ :=
    ok_of_bindFormula plain sets ended
  obtain ⟨setting', set', same⟩ := Reaction.setting_of_spot? sets state.store value
  cases set.symm.trans set'
  subst same here
  have reaction' : binding.reaction = reaction := congrArg Blueprint.reaction plan
  have spots : Blueprint.spots [(⟨source, formula, context, reaction⟩ : Blueprint κ)] =
      [setting.spot] := by
    simp [Blueprint.spots, sets]
  refine ⟨[binding], made, congrArg ([·]) plan, ?_, ?_, ?_⟩
  · intro blueprint member
    rw [List.mem_singleton.mp member]
    exact ⟨setting.spot, sets, rfl⟩
  · rw [spots, document]
    exact Document.tended_set wellFormed live
  · intro other member _ _ _
    rw [List.mem_singleton.mp member]
    refine ⟨value, setting, handed, ?_, ?_⟩
    · rw [Reaction.setting?_congr (made.data.text value), reaction', set]
    · rw [document]
      exact Document.holds_set wellFormed live

theorem tends_changeDocument {change : Document (Listener κ) → Document (Listener κ)}
    {removed : List String} {added : List (Registration (Listener κ))}
    (tended : state.document.Tended (change state.document) target [] removed added) :
    state.Tends (state.changeDocument change) target [] removed added [] [] := by
  have own : state.Tends state target [] [] [] [] [] := .refl wellFormed live (.refl state)
  exact ⟨.sameCore ⟨rfl, rfl, rfl⟩, rfl, own.sets, tended,
    fun _ none => absurd none List.not_mem_nil⟩

theorem tends_expression {source : String} {reaction : Reaction κ} {spot : Spot}
    (plain : (Formula.expression (Directive.spelled source)).callsNone context.methods = true)
    (sets : reaction.spot? = some spot) (here : spot.node = target)
    {rest : Expression → SubscriberId → Engine κ σ (List SubscriberId)}
    (ended : (do
      let expression ← parseOrLiteral source
      let id ← bindFormula invoke source (.expression expression) context reaction
      rest expression id) state = .ended (.ok ids) later) :
    ∃ id middle bindings, state.Tends middle target
        [⟨source, .expression (Directive.spelled source), context, reaction⟩] [] [] [id] bindings ∧
      rest (Directive.spelled source) id middle = .ended (.ok ids) later := by
  obtain ⟨expression, first, parsed, ended⟩ := ok_of_bind ended
  obtain ⟨rfl, same⟩ := ok_of_parseOrLiteral parsed
  obtain ⟨id, middle, bound, ended⟩ := ok_of_bind ended
  have quiet : state.Tends first target [] [] [] [] [] := .refl wellFormed live same
  obtain ⟨bindings, tends⟩ := tends_bindFormula quiet.document.wellFormed quiet.document.live plain
    sets here bound
  exact ⟨id, middle, bindings,
    quiet.trans wellFormed tends (fun _ none => absurd none List.not_mem_nil), ended⟩

theorem tends_compileDirective {directive : Directive}
    (plain : ∀ blueprint, directive.blueprint? context target = some blueprint →
      blueprint.formula.callsNone context.methods = true)
    (ended : compileDirective invoke context target directive state = .ended (.ok ids) later) :
    ∃ bindings, state.Tends later target (directive.blueprint? context target).toList []
      (directive.registration? context target).toList ids bindings := by
  cases directive with
  | text source =>
      obtain ⟨id, middle, bindings, tends, ended⟩ :=
        tends_expression wellFormed live (plain _ rfl) rfl rfl ended
      cases ended
      exact ⟨bindings, tends⟩
  | bind property source =>
      obtain ⟨id, middle, bindings, tends, ended⟩ :=
        tends_expression wellFormed live (plain _ rfl) rfl rfl ended
      cases ended
      exact ⟨bindings, tends⟩
  | model property source =>
      obtain ⟨id, middle, bindings, tends, ended⟩ :=
        tends_expression wellFormed live (plain _ rfl) rfl rfl ended
      refine ⟨bindings, ?_⟩
      simp only [Directive.registration?]
      split at ended
      · next none =>
          cases ended
          have quiet : middle.Tends (middle.warn (.notAPath source target)) target [] [] [] [] [] :=
            .refl tends.document.wellFormed tends.document.live ⟨⟨rfl, rfl, rfl⟩, rfl⟩
          rw [none]
          have whole := tends.trans wellFormed quiet (fun _ none => absurd none List.not_mem_nil)
          simp only [List.append_nil] at whole
          exact whole
      · next path found =>
          cases ended
          rw [found]
          have listens : middle.Tends (middle.changeDocument (·.listen target inputEvent
              (.writeBack context (property.getD valueProperty) path))) target [] [] _ [] [] :=
            tends_changeDocument tends.document.wellFormed tends.document.live
              (Document.tended_listen tends.document.wellFormed tends.document.live _ _)
          have whole := tends.trans wellFormed listens (fun _ none => absurd none List.not_mem_nil)
          simp only [List.append_nil] at whole
          exact whole
  | event name source =>
      refine ⟨[], ?_⟩
      have listened {middle : State κ σ} (same : state.SameView middle) (handler : Handler) :
          state.Tends (middle.changeDocument (·.listen target name (.handler context handler)))
            target [] [] [⟨target, name, .handler context handler⟩] [] [] := by
        have quiet : state.Tends middle target [] [] [] [] [] := .refl wellFormed live same
        exact quiet.trans wellFormed
          (tends_changeDocument quiet.document.wellFormed quiet.document.live
            (Document.tended_listen quiet.document.wellFormed quiet.document.live _ _))
          (fun _ none => absurd none List.not_mem_nil)
      rw [compileDirective, compileEvent] at ended
      simp only [Directive.registration?]
      cases handler : Handler.parse source with
      | unresolved unknown =>
          rw [handler] at ended
          cases ended
          have warned : state.SameView (state.warn (.notAMethod source name target)) :=
            ⟨⟨rfl, rfl, rfl⟩, rfl⟩
          exact listened warned _
      | method method arguments =>
          rw [handler] at ended
          cases ended
          exact listened (.refl state) _

/-- What an attribute asks for is done, and a directive is removed. -/
theorem tends_compileAttribute {entry : String × String}
    (plain : ∀ blueprint ∈ Directive.blueprints context target [entry],
      blueprint.formula.callsNone context.methods = true)
    (ended : compileAttribute invoke context target entry state = .ended (.ok ids) later) :
    ∃ bindings, state.Tends later target (Directive.blueprints context target [entry])
      (Directive.names [entry]) (Directive.registrations context target [entry]) ids bindings := by
  unfold compileAttribute at ended
  cases parsed : Directive.parse? entry.1 entry.2 with
  | none =>
      rw [parsed] at ended
      have quiet : state.SameView later ∧ ids = [] := by
        by_cases long : Directive.isLongForm entry.1
        · simp only [long, if_true] at ended
          cases ended
          exact ⟨⟨⟨rfl, rfl, rfl⟩, rfl⟩, rfl⟩
        · simp only [long, if_false, Bool.false_eq_true] at ended
          cases ended
          exact ⟨⟨⟨rfl, rfl, rfl⟩, rfl⟩, rfl⟩
      have none : Directive.blueprints context target [entry] = [] ∧
          Directive.registrations context target [entry] = [] := by
        simp [Directive.blueprints, Directive.registrations, parsed]
      rw [Directive.names_of_none parsed, none.1, none.2, quiet.2]
      exact ⟨[], .refl wellFormed live quiet.1⟩
  | some directive =>
      rw [parsed] at ended
      rw [Directive.blueprints_of_some context target parsed] at plain ⊢
      rw [Directive.registrations_of_some context target parsed, Directive.names_of_some parsed]
      obtain ⟨made, middle, compiled, ended⟩ := ok_of_bind ended
      obtain ⟨bindings, tends⟩ := tends_compileDirective wellFormed live (fun blueprint found =>
        plain blueprint (Option.mem_toList.mpr found)) compiled
      have removes : middle.Tends (middle.changeDocument (·.removeAttribute target entry.1)) target
          [] [entry.1] [] [] [] :=
        tends_changeDocument tends.document.wellFormed tends.document.live
          (Document.tended_removeAttribute tends.document.wellFormed tends.document.live entry.1)
      cases ended
      have whole := tends.trans wellFormed removes (fun entry member =>
        Directive.node_of_registration? (Option.mem_toList.mp member))
      simp only [List.append_nil, List.nil_append] at whole
      exact ⟨bindings, whole⟩

theorem tends_compileAttributes {entries : List (String × String)}
    (plain : ∀ blueprint ∈ Directive.blueprints context target entries,
      blueprint.formula.callsNone context.methods = true)
    (ended : makeEach (compileAttribute invoke context target) entries state =
      .ended (.ok ids) later) :
    ∃ bindings, state.Tends later target (Directive.blueprints context target entries)
      (Directive.names entries) (Directive.registrations context target entries) ids bindings := by
  induction entries generalizing state ids with
  | nil =>
      cases ended
      exact ⟨[], .refl wellFormed live (.refl _)⟩
  | cons entry rest induction =>
      rw [← List.singleton_append, Directive.blueprints_append] at plain ⊢
      rw [Directive.names_append, Directive.registrations_append]
      obtain ⟨made, others, middle, first, second, rfl⟩ := ok_of_makeBoth ended
      obtain ⟨bindings, tends⟩ := tends_compileAttribute wellFormed live
        (fun blueprint member => plain blueprint (List.mem_append_left _ member)) first
      obtain ⟨bindings', tends'⟩ := induction tends.document.wellFormed tends.document.live
        (fun blueprint member => plain blueprint (List.mem_append_right _ member)) second
      refine ⟨bindings ++ bindings', tends.trans wellFormed tends' ?_⟩
      intro registration member
      obtain ⟨entry, -, added⟩ := List.mem_filterMap.mp member
      obtain ⟨directive, -, added⟩ := Option.bind_eq_some_iff.mp added
      exact Directive.node_of_registration? added

end Node

end Engine

end ReactiveView
