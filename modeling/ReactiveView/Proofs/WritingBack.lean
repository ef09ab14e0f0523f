import ReactiveView.Proofs.Entering
import ReactiveView.Proofs.Passing
import ReactiveView.Proofs.Saturation
import ReactiveView.Proofs.Supervision

/-!
# Two ways to one slot

A two-way binding reads its field by evaluating an expression, which tracks what it reads,
and writes it by a walk along the path that the expression spells, which does not. Both
come to the same slot, whatever the data are: fields may be missing, hold no records, or
lead back to where they are. Where callers' code leaves the slots on the way alone, what has
been written is what is read.
-/

namespace ReactiveView

set_option autoImplicit false

variable {κ σ : Type}

namespace Store

variable {store later : Store} {root record : RecordId} {names : List String}
  {places : List Place}

/-- Field names that lead from record to record, with the slots that are passed. -/
inductive Path (store : Store) : RecordId → List String → List Place → RecordId → Prop where
  | here (root : RecordId) : Path store root [] [] root
  | down {root child record : RecordId} {name : String} {rest : List String}
      {places : List Place} (held : store.peek (.field root name) = some (.record child))
      (further : Path store child rest places record) :
      Path store root (name :: rest) (.field root name :: places) record

namespace Path

theorem walked (path : store.Path root names places record) (whole : List String) :
    Engine.walk store whole root names = .ok record := by
  induction path with
  | here root => rfl
  | down held _ induction =>
      rw [Engine.walk, held]
      exact induction

theorem congr (path : store.Path root names places record)
    (same : ∀ place ∈ places, later.peek place = store.peek place) :
    later.Path root names places record := by
  induction path with
  | here root => exact .here root
  | down held _ induction =>
      refine .down ?_ (induction fun place member => same place (List.mem_cons_of_mem _ member))
      rw [same _ List.mem_cons_self, held]

theorem loop {field : String} (path : store.Path root names places record)
    (passed : .field record field ∈ places) :
    ∃ rest around, store.Path record (field :: rest) around record := by
  induction path with
  | here root => cases passed
  | down held further induction =>
      rcases List.mem_cons.mp passed with here | beyond
      · cases here
        exact ⟨_, _, .down held further⟩
      · exact induction beyond

theorem has (path : store.Path root names places record) (closed : store.Closed)
    (there : store.Has (.record root)) : store.Has (.record record) := by
  induction path with
  | here root => exact there
  | down held _ induction =>
      obtain ⟨slot, found, holds⟩ := Option.map_eq_some_iff.mp held
      refine induction (closed _ slot found _ ?_)
      rw [holds]
      rfl

end Path

/-- What a walk comes upon where it cannot go on. -/
def obstacle (store : Store) (place : Place) : String :=
  (store.peek place).elim "undefined" Value.typeName

/-- Field names lead to a record, or there is a first one that does not. -/
theorem path_or_blocked (store : Store) (root : RecordId) (names : List String) :
    (∃ places record, store.Path root names places record) ∨
    ∃ front name rest places between, names = front ++ name :: rest ∧
      store.Path root front places between ∧
      (∀ child, store.peek (.field between name) ≠ some (.record child)) ∧
      ∀ whole, Engine.walk store whole root names =
        .error (.type (.assignmentThrough whole (store.obstacle (.field between name)))) := by
  induction names generalizing root with
  | nil => exact .inl ⟨[], root, .here root⟩
  | cons name rest induction =>
      by_cases leads : ∃ child, store.peek (.field root name) = some (.record child)
      · obtain ⟨child, held⟩ := leads
        have onward (whole : List String) :
            Engine.walk store whole root (name :: rest) = Engine.walk store whole child rest := by
          rw [Engine.walk, held]
        rcases induction child with ⟨places, record, path⟩ |
          ⟨front, blocked, others, places, between, split, path, none, stuck⟩
        · exact .inl ⟨_, record, .down held path⟩
        · refine .inr ⟨name :: front, blocked, others, _, between, congrArg _ split,
            .down held path, none, fun whole => ?_⟩
          rw [onward, stuck]
      · rw [not_exists] at leads
        refine .inr ⟨[], name, rest, [], root, rfl, .here root, leads, fun whole => ?_⟩
        rw [Engine.walk, obstacle]
        split
        · next child held => exact absurd held (leads child)
        · next other _ held => rw [held, Option.elim_some]
        · next held => rw [held, Option.elim_none]

/-- A value is stored in one slot. All others hold what they held, and nobody joins or leaves
a registry. -/
structure Stores (store later : Store) (place : Place) (value : Value) : Prop where
  here : later.peek place = some value
  others : ∀ other, other ≠ place → later.peek other = store.peek other
  registry : later.registryAt place = store.registryAt place
  subscribers : ∀ registry, later.subscribers registry = store.subscribers registry

/-- The data after a write, before anyone hears of it. -/
def stored (store : Store) (place : Place) (value : Value) : Store :=
  match store.registryAt place with
  | some registry => store.overwrite place value registry
  | none => store.put place (.plain value)

theorem slot?_put_field {record : RecordId} (there : store.Has (.record record)) (key : String)
    (slot : Slot) : (store.put (.field record key) slot).slot? (.field record key) = some slot := by
  have there : record.index < store.records.size := there
  simp only [slot?, put, fields, Array.getElem?_modify, if_true,
    Array.getElem?_eq_getElem there, Option.map_some, Option.getD_some, Dictionary.find?_insert]

theorem peek_put_of_ne {place other : Place} (differs : other ≠ place) (slot : Slot) :
    (store.put place slot).peek other = store.peek other := by
  rcases slot?_put_cases store place slot other with same | ⟨here, -⟩
  · rw [peek, same, peek]
  · exact absurd here differs

theorem stored_of_reactive {place : Place} {registry : RegistryId}
    (attached : store.registryAt place = some registry) (value : Value) :
    store.stored place value = store.overwrite place value registry := by
  rw [stored, attached]

theorem stored_of_plain {place : Place} (plain : store.registryAt place = none) (value : Value) :
    store.stored place value = store.put place (.plain value) := by
  rw [stored, plain]

theorem stores_stored {record : RecordId} (there : store.Has (.record record)) (key : String)
    (value : Value) : store.Stores (store.stored (.field record key) value) (.field record key)
      value := by
  cases attached : store.registryAt (.field record key) with
  | some registry =>
      have slot := slot?_overwrite (isSome_slot?_of_registryAt attached) value registry
      rw [stored_of_reactive attached]
      refine ⟨?_, ?_, ?_, subscribers_overwrite store _ value registry⟩
      · rw [peek, slot, Option.map_some]
      · intro other differs
        exact (peek_put_of_ne differs _).trans ((instruments_instrumentFrom store _).peek other)
      · rw [registryAt, slot, Option.bind_some, attached]
  | none =>
      have slot := slot?_put_field there key (.plain value)
      rw [stored_of_plain attached]
      refine ⟨?_, fun other differs => peek_put_of_ne differs _, ?_,
        subscribers_put store _ _⟩
      · rw [peek, slot]
        rfl
      · rw [registryAt, slot, attached]
        rfl

end Store

namespace Engine

variable {invoke : Invoke κ σ} {state later : State κ σ} {record : RecordId} {field : String}
  {value : Value} {slots : List Place}

/-- The dependents of a slot are notified, if it is reactive. -/
def inform (invoke : Invoke κ σ) (place : Place) : Engine κ σ Unit := do
  match ← look (fun state => state.store.registryAt place) with
  | some registry => notifyAll invoke registry
  | none => pure ()

theorem inform_of_reactive {place : Place} {registry : RegistryId}
    (attached : state.store.registryAt place = some registry) :
    inform invoke place state = notifyAll invoke registry state := by
  simp only [inform, Bind.bind, bind, look, attached]

theorem inform_of_plain {place : Place} (plain : state.store.registryAt place = none) :
    inform invoke place state = .ended (.ok ()) state := by
  simp only [inform, Bind.bind, bind, look, plain]
  rfl

/-- A write to a field stores the value, and then the dependents of the field hear of it. -/
theorem write_field (there : state.store.Has (.record record)) (field : String) (value : Value) :
    write invoke (.field record field) value state =
      inform invoke (.field record field)
        (state.changeStore (·.stored (.field record field) value)) := by
  have registry := (Store.stores_stored there field value).registry
  cases found : state.store.slot? (.field record field) with
  | none =>
      have plain : state.store.registryAt (.field record field) = none := by
        rw [Store.registryAt, found, Option.bind_none]
      have store : (look State.store : Engine κ σ Store) state = .ended (.ok state.store) state :=
        rfl
      rw [inform_of_plain (registry.trans plain), write, bind_of_ok store]
      simp only [found, State.changeStore, Store.stored_of_plain plain]
      rfl
  | some slot =>
      obtain ⟨old, attached⟩ := slot
      have here : state.store.registryAt (.field record field) = attached := by
        rw [Store.registryAt, found, Option.bind_some]
      cases attached with
      | none =>
          rw [inform_of_plain (registry.trans here), write_of_plain found]
          simp only [State.changeStore, Store.stored_of_plain here]
      | some attached =>
          rw [inform_of_reactive (registry.trans here), write_of_reactive found]
          simp only [State.changeStore, Store.stored_of_reactive here]

/-- Callers' code that is stopped where it leaves one of some slots with another value. -/
def watching (slots : List Place) (invoke : Invoke κ σ) : Invoke κ σ := fun body occasion state =>
  match invoke body occasion state with
  | .ended outcome later =>
      if slots.all (fun place => later.store.peek place = state.store.peek place) then
        .ended outcome later
      else .stopped state
  | .stopped _ => .stopped state

end Engine

def Trail.keeping (κ σ : Type) (slots : List Place) : Trail κ σ :=
  .ofData (fun store later => ∀ place ∈ slots, later.peek place = store.peek place)
    (by
      intro store later same place _
      rw [Store.peek, same.slot?, Store.peek])
    (fun first second place member => (second place member).trans (first place member))

namespace Engine

variable {invoke : Invoke κ σ} {state later : State κ σ} {slots : List Place}

theorem passes_watching (slots : List Place) (invoke : Invoke κ σ) (body : κ)
    (occasion : Occasion κ) (state : State κ σ) :
    (Trail.keeping κ σ slots).Passes (watching slots invoke body occasion) state := by
  change (Trail.keeping κ σ slots).leads state (watching slots invoke body occasion state).state
  unfold watching
  split
  · next outcome later ran =>
      split
      · next kept =>
          intro place member
          exact of_decide_eq_true (List.all_eq_true.mp kept place member)
      · exact (Trail.keeping κ σ slots).refl state
  · exact (Trail.keeping κ σ slots).refl state

theorem passes_inform {trail : Trail κ σ}
    (invokes : ∀ body occasion state, trail.Passes (invoke body occasion) state)
    (place : Place) (state : State κ σ) : trail.Passes (inform invoke place) state := by
  apply corresponds_after_look
  split
  · exact corresponds_notifyAll (Trail.joins invokes) _ state
  · exact corresponds_pure ()

theorem below_watching
    (keeps : ∀ body occasion (state : State κ σ) outcome later,
      invoke body occasion state = .ended outcome later →
        ∀ place ∈ slots, later.store.peek place = state.store.peek place) :
    (Correspondence.below κ σ).Joins invoke (watching slots invoke) := by
  intro body occasion state _ outcome later ran
  have kept : slots.all (fun place => later.store.peek place = state.store.peek place) = true :=
    List.all_eq_true.mpr fun place member =>
      decide_eq_true (keeps body occasion state outcome later ran place member)
  rw [watching, ran]
  exact if_pos kept

/-- What is not stopped goes as it does without anyone watching. -/
theorem watching_below (slots : List Place) (invoke : Invoke κ σ) :
    (Correspondence.below κ σ).Joins (watching slots invoke) invoke := by
  intro body occasion state _ outcome later ended
  unfold watching at ended
  split at ended
  · next ran =>
      split at ended
      · cases ended
        exact ran
      · cases ended
  · cases ended

end Engine

namespace Engine

variable {invoke : Invoke κ σ} {context : Context κ} {property event : String}
  {path : List String} {expression : Expression} {target : NodeId} {state : State κ σ}
  {record : RecordId} {field : String} {places : List Place}

theorem writeBack_of_stuck (invoke : Invoke κ σ) (event : String) (target : NodeId)
    (property : String) {error : Error} (last : path.getLast? = some field)
    (stuck : walk state.store path context.data path.dropLast = .error error) :
    runListener invoke event target (.writeBack context property path) state =
      .ended (.error error) state := by
  rw [writeBack_eq invoke event target context property state last, stuck]
  rfl

theorem compileModel_of_path {source : String}
    (parsed : Expression.parse? source = some expression)
    (named : expression.path? = some path) (invoke : Invoke κ σ) (context : Context κ)
    (node : NodeId) (property : String) :
    compileModel invoke context node property source = (do
      let id ← bindFormula invoke source (.expression expression) context
        (.property node property)
      alter (State.changeDocument
        (·.listen node inputEvent (.writeBack context property path)))
      pure [id]) := by
  have spelled : (parseOrLiteral source : Engine κ σ Expression) = pure expression := by
    rw [parseOrLiteral, parsed]
  funext state
  rw [compileModel, spelled]
  have given : (pure expression : Engine κ σ Expression) state = .ended (.ok expression) state :=
    rfl
  rw [bind_of_ok given]
  simp only [named]

/-- What a write-back does where the front of its path leads to a record. -/
structure WritesBack (invoke : Invoke κ σ) (context : Context κ) (property : String)
    (path : List String) (expression : Expression) (target : NodeId) (state : State κ σ)
    (record : RecordId) (field : String) (places : List Place) : Prop where
  last : path.getLast? = some field
  led : state.store.Path context.data path.dropLast places record
  /-- The value of the property is stored there, and nothing else changes. -/
  stores : state.store.Stores
    (state.store.stored (.field record field) (state.document.property target property))
    (.field record field) (state.document.property target property)
  /-- All that follows is the notification of the field. -/
  informs : runListener invoke inputEvent target (.writeBack context property path) state =
    inform invoke (.field record field) (state.changeStore
      (·.stored (.field record field) (state.document.property target property)))
  /-- Whatever slots are watched, they hold in the end what they held after the store. -/
  kept : ∀ slots outcome final,
    runListener (watching slots invoke) inputEvent target (.writeBack context property path)
        state = .ended outcome final →
      runListener invoke inputEvent target (.writeBack context property path) state =
        .ended outcome final ∧
      ∀ place ∈ slots, final.store.peek place =
        (state.store.stored (.field record field)
          (state.document.property target property)).peek place
  /-- Slots that callers' code leaves alone can be watched. -/
  watchable : ∀ slots,
    (∀ body occasion (before : State κ σ) outcome after,
      invoke body occasion before = .ended outcome after →
        ∀ place ∈ slots, after.store.peek place = before.store.peek place) →
    ∀ outcome final,
      runListener invoke inputEvent target (.writeBack context property path) state =
          .ended outcome final →
        runListener (watching slots invoke) inputEvent target
          (.writeBack context property path) state = .ended outcome final
  /-- Only data that lead back to where they were put the field on the way to itself. -/
  loop : .field record field ∈ places →
    ∃ rest around, state.store.Path record (field :: rest) around record
  /-- Where it is not on that way, and callers' code leaves the way and the field alone, the
  expression has the value of the property. -/
  agrees : .field record field ∉ places → ∀ final,
    runListener (watching (.field record field :: places) invoke) inputEvent target
        (.writeBack context property path) state = .ended (.ok ()) final →
      ∀ other : Invoke κ σ, ∃ after, evaluate other context expression final =
        .ended (.ok (state.document.property target property)) after

/-- What a write-back does where the front of its path leads to no record. -/
structure Refuses (invoke : Invoke κ σ) (context : Context κ) (property : String)
    (path : List String) (target : NodeId) (state : State κ σ) (between : RecordId)
    (name : String) (front rest : List String) (places : List Place) : Prop where
  /-- The last name of some proper prefix of the path is the one at fault. -/
  split : path.dropLast = front ++ name :: rest
  led : state.store.Path context.data front places between
  blocked : ∀ child, state.store.peek (.field between name) ≠ some (.record child)
  fails : runListener invoke inputEvent target (.writeBack context property path) state =
    .ended (.error (.type (.assignmentThrough path
      (state.store.obstacle (.field between name))))) state

theorem kept_by_watching (there : state.store.Has (.record record)) {slots : List Place}
    {value : Value} {outcome : Except Error Unit} {final : State κ σ}
    (ended : write (watching slots invoke) (.field record field) value state =
      .ended outcome final) :
    ∀ place ∈ slots, final.store.peek place =
      (state.store.stored (.field record field) value).peek place := by
  rw [write_field there] at ended
  have passes := passes_inform (passes_watching slots invoke) (.field record field)
    (state.changeStore (·.stored (.field record field) value))
  exact passes.leads ended

/-- After the write the path leads to the same record as before, and to the new value. -/
theorem evaluate_of_kept (named : expression.path? = some path)
    (last : path.getLast? = some field)
    (led : state.store.Path context.data path.dropLast places record)
    (apart : .field record field ∉ places) {value : Value} {later : Store}
    (stores : state.store.Stores later (.field record field) value) {final : State κ σ}
    (kept : ∀ place ∈ .field record field :: places,
      final.store.peek place = later.peek place) (invoke : Invoke κ σ) :
    ∃ after, evaluate invoke context expression final = .ended (.ok value) after := by
  have same (place : Place) (member : place ∈ places) :
      final.store.peek place = state.store.peek place := by
    have differs : place ≠ .field record field := fun here => apart (here ▸ member)
    exact (kept place (List.mem_cons_of_mem _ member)).trans (stores.others place differs)
  have held : final.store.peek (.field record field) = some value :=
    (kept _ List.mem_cons_self).trans stores.here
  have outcome : (expression.reading context final.store).outcome = .ok value :=
    (Expression.reading_of_path expression named last ((led.congr same).walked path)).2 value held
  have plain := Expression.callsNone_of_path context.methods expression named
  have ends := (follows_evaluate invoke context expression plain).ends final
  rw [outcome] at ends
  exact ⟨_, ends⟩

theorem writesBack_of_path (named : expression.path? = some path)
    (last : path.getLast? = some field)
    (led : state.store.Path context.data path.dropLast places record)
    (there : state.store.Has (.record record)) (invoke : Invoke κ σ) (property : String)
    (target : NodeId) :
    WritesBack invoke context property path expression target state record field places := by
  have stores := Store.stores_stored there field (state.document.property target property)
  have run (invoke : Invoke κ σ) := writeBack_of_walk invoke inputEvent target property last
    (led.walked path)
  have kept (slots : List Place) (outcome : Except Error Unit) (final : State κ σ)
      (ended : runListener (watching slots invoke) inputEvent target
        (.writeBack context property path) state = .ended outcome final) :=
    kept_by_watching there ((run (watching slots invoke)).symm.trans ended)
  exact {
    last
    led
    stores
    informs := (run invoke).trans (write_field there field _)
    kept := fun slots outcome final ended =>
      ⟨corresponds_runListener (watching_below slots invoke) Passage.free_moves inputEvent target
        _ state outcome final ended, kept slots outcome final ended⟩
    watchable := fun slots keeps =>
      corresponds_runListener (below_watching keeps) Passage.free_moves inputEvent target _ state
    loop := led.loop
    agrees := fun apart final ended other =>
      evaluate_of_kept named last led apart stores (kept _ _ _ ended) other }

/-- Whatever the data are, a two-way binding to a field path either stores the property in
the field that the path spells, where its expression reads it, or fails and changes
nothing. -/
theorem writeBack_reads_back {source : String}
    (parsed : Expression.parse? source = some expression)
    (named : expression.path? = some path) (invoke : Invoke κ σ) (context : Context κ)
    (property : String) (target : NodeId) (state : State κ σ) (closed : state.store.Closed)
    (rooted : state.store.Has (.record context.data)) :
    (∀ node, compileModel invoke context node property source = (do
      let id ← bindFormula invoke source (.expression expression) context
        (.property node property)
      alter (State.changeDocument
        (·.listen node inputEvent (.writeBack context property path)))
      pure [id])) ∧
    ((∃ record field places,
      WritesBack invoke context property path expression target state record field places) ∨
    ∃ between name front rest places,
      Refuses invoke context property path target state between name front rest places) := by
  refine ⟨fun node => compileModel_of_path parsed named invoke context node property, ?_⟩
  obtain ⟨field, last⟩ := Expression.exists_last_of_path named
  rcases state.store.path_or_blocked context.data path.dropLast with
    ⟨places, record, led⟩ | ⟨front, name, rest, places, between, split, led, blocked, stuck⟩
  · exact .inl ⟨record, field, places,
      writesBack_of_path named last led (led.has closed rooted) invoke property target⟩
  · exact .inr ⟨between, name, front, rest, places, split, led, blocked,
      writeBack_of_stuck invoke inputEvent target property last (stuck path)⟩

end Engine

def noting : Unit → Occasion Unit → Program Unit Nat Value := fun _ _ => do
  Program.keep (· + 1)
  pure .null

def profile : Program Unit Nat Unit := do
  let user ← Program.run (.newRecord [("name", .text "Ann")])
  let root ← Program.run (.newRecord [("user", .record user)])
  Program.run (.instrument root)
  let context : Context Unit := ⟨root, .empty⟩
  let name : Expression := .member (.identifier "user") "name"
  let _ ← Program.run (.bind "user.name" (.expression name) context ())
  let element ← Program.run (.createNode (.element "input"))
  Program.run (.append Document.body element)
  Program.run (.setAttribute element "m-model" "user.name")
  let _ ← Program.run (.compile context Document.body)
  Program.run (.setProperty element Engine.valueProperty (.text "Bob"))

namespace Profile

def state : State Unit Nat :=
  (profile.execute (Program.invoke noting 1) 2 (State.initial 0)).state

def context : Context Unit := ⟨⟨1⟩, .empty⟩

def writtenBack : Course Unit Nat Unit :=
  Engine.runListener (Program.invoke noting 1) Engine.inputEvent ⟨1⟩
    (.writeBack context Engine.valueProperty ["user", "name"]) state

theorem keeps (slots : List Place) (body : Unit) (occasion : Occasion Unit)
    (before : State Unit Nat) (outcome : Except Error Value) (after : State Unit Nat)
    (ended : Program.invoke noting 1 body occasion before = .ended outcome after) :
    ∀ place ∈ slots, after.store.peek place = before.store.peek place := by
  cases ended
  exact fun _ _ => rfl

end Profile

/-- The reaction has run a second time, and the expression gives the new name. -/
theorem writeBack_reads_back_profile :
    Profile.state.host = 1 ∧
    Profile.state.store.peek (.field ⟨0⟩ "name") = some (.text "Ann") ∧
    Profile.writtenBack = .ended (.ok ()) Profile.writtenBack.state ∧
    Profile.writtenBack.state.host = 2 ∧
    ∃ after, Engine.evaluate (Program.invoke noting 1) Profile.context
      (.member (.identifier "user") "name") Profile.writtenBack.state =
        .ended (.ok (.text "Bob")) after := by
  have parsed : Expression.parse? "user.name" = some (.member (.identifier "user") "name") := by
    decide +kernel
  have named : (Expression.member (.identifier "user") "name").path? = some ["user", "name"] := rfl
  have closed : Profile.state.store.Closed := Store.closed_of_known (by decide +kernel)
  have known : Profile.state.store.knows (.record ⟨1⟩) = true := by decide +kernel
  have rooted : Profile.state.store.Has (.record ⟨1⟩) := Store.within_of_knows known _ rfl
  have result : Profile.writtenBack.ended?.bind (fun ended => ended.1.toOption) = some () := by
    decide +kernel
  have ended := Course.ended_of_result result
  have holds : Profile.state.store.peek (.field ⟨1⟩ "user") = some (.record ⟨0⟩) := by
    decide +kernel
  have property : Profile.state.document.property ⟨1⟩ Engine.valueProperty = .text "Bob" := by
    decide +kernel
  refine ⟨by decide +kernel, by decide +kernel, ended, by decide +kernel, ?_⟩
  rcases (Engine.writeBack_reads_back parsed named (Program.invoke noting 1) Profile.context
    Engine.valueProperty ⟨1⟩ Profile.state closed rooted).2 with
    ⟨record, field, places, writes⟩ | ⟨between, name, front, rest, places, refuses⟩
  · have last : some "name" = some field := writes.last
    have led : Profile.state.store.Path ⟨1⟩ ["user"] places record := writes.led
    cases last
    cases led with
    | down held further =>
        cases further
        cases holds.symm.trans held
        have apart : .field ⟨0⟩ "name" ∉ [Place.field ⟨1⟩ "user"] := by decide
        have watched := writes.watchable [.field ⟨0⟩ "name", .field ⟨1⟩ "user"]
          (Profile.keeps _) _ _ ended
        obtain ⟨after, evaluated⟩ := writes.agrees apart _ watched (Program.invoke noting 1)
        exact ⟨after, property ▸ evaluated⟩
  · cases ended.symm.trans refuses.fails

def overwriting : Bool → Occasion Bool → Program Bool Unit Value
  | true, .called context _ => do
      let _ ← (Program.run (.write (.field context.data "a") (.text "over"))).attempt
      pure .null
  | _, _ => pure .null

/-- A binding calls the method when "2" has been entered. -/
def overwritten : Program Bool Unit Unit := do
  let root ← Program.run (.newRecord [("a", .text "1")])
  Program.run (.instrument root)
  let context : Context Bool := ⟨root, .ofList [("m", true)]⟩
  let entered : Expression := .binary .equal (.identifier "a") (.literal (.text "2"))
  let formula : Expression := .conditional entered (.call (.identifier "m") []) (.literal .null)
  let _ ← Program.run (.bind "a == '2' ? m() : null" (.expression formula) context false)
  let element ← Program.run (.createNode (.element "input"))
  Program.run (.append Document.body element)
  Program.run (.setAttribute element "m-model" "a")
  let _ ← Program.run (.compile context Document.body)
  Program.run (.setProperty element Engine.valueProperty (.text "2"))

namespace Overwritten

def state : State Bool Unit :=
  (overwritten.execute (Program.invoke overwriting 3) 2 (State.initial ())).state

def context : Context Bool := ⟨⟨0⟩, .ofList [("m", true)]⟩

def writtenBack : Course Bool Unit Unit :=
  Engine.runListener (Program.invoke overwriting 3) Engine.inputEvent ⟨1⟩
    (.writeBack context Engine.valueProperty ["a"]) state

end Overwritten

/-- No reaction of a binding changes anything, and no slot is on the way to the field. Yet
the expression has another value after the write-back than the property had. -/
theorem writeBack_overwritten :
    (∀ body value before,
      (Program.invoke overwriting 3 body (.updated value) before).state = before) ∧
    Expression.parse? "a" = some (.identifier "a") ∧
    (Expression.identifier "a").path? = some ["a"] ∧
    Overwritten.state.store.Path ⟨0⟩ (["a"].dropLast) [] ⟨0⟩ ∧
    Overwritten.state.document.property ⟨1⟩ Engine.valueProperty = .text "2" ∧
    Overwritten.writtenBack = .ended (.ok ()) Overwritten.writtenBack.state ∧
    ∃ after, Engine.evaluate (Program.invoke overwriting 3) Overwritten.context
      (.identifier "a") Overwritten.writtenBack.state = .ended (.ok (.text "over")) after := by
  have parsed : Expression.parse? "a" = some (.identifier "a") := by decide +kernel
  have result : Overwritten.writtenBack.ended?.bind (fun ended => ended.1.toOption) =
      some () := by
    decide +kernel
  have evaluated : (Engine.evaluate (Program.invoke overwriting 3) Overwritten.context
      (.identifier "a") Overwritten.writtenBack.state).ended?.bind
        (fun ended => ended.1.toOption) = some (.text "over") := by
    decide +kernel
  refine ⟨?_, parsed, rfl, .here ⟨0⟩, by decide +kernel, Course.ended_of_result result, _,
    Course.ended_of_result evaluated⟩
  intro body value before
  cases body <;> rfl

end ReactiveView
