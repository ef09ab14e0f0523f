import ReactiveView.Proofs.Freshness

/-!
# Up to date or accounted for

While reactions leave data and bindings alone, a live binding that is behind the data
depends on a field whose latest write failed, since only a failed write leaves its pass
before all dependents have had their turn.
-/

namespace ReactiveView

set_option autoImplicit false

variable {κ σ : Type}

/-- Reactions leave data and bindings alone, however they end. -/
def Quiet (invoke : Invoke κ σ) : Prop :=
  ∀ body value (state : State κ σ), state.observer = none →
    state.SameCore (invoke body (.updated value) state).state

/-- A run of admitted commands, one after the other, with the outcomes of its writes, the
latest first. -/
inductive Run (invoke : Invoke κ σ) (depth : Nat) (root : RecordId) (start : State κ σ) :
    List (Place × Except Error Unit) → State κ σ → Prop where
  | start : Run invoke depth root start [] start
  | step {history : List (Place × Except Error Unit)} {state later : State κ σ} {β : Type}
      {outcome : Except Error β} (command : Command κ β)
      (before : Run invoke depth root start history state)
      (admitted : command.admitted root state = true)
      (ended : command.perform invoke depth state = .ended outcome later) :
      Run invoke depth root start (command.writes outcome ++ history) later

/-- A binding is subscribed to the registry of a field whose latest write failed. -/
def Binding.Accounted (binding : Binding κ) (history : List (Place × Except Error Unit))
    (store : Store) : Prop :=
  ∃ place error registry, history.lookup place = some (.error error) ∧
    store.registryAt place = some registry ∧ registry ∈ binding.subscriptions

variable {invoke : Invoke κ σ} {depth : Nat} {root : RecordId} {start state later : State κ σ}
  {history : List (Place × Except Error Unit)}

theorem quiet_keeps (quiet : Quiet invoke) : (Conduct.freshness κ σ root True).Keeps invoke := by
  intro body value state holds
  have core := quiet body value state holds.coherent.idle
  cases ended : invoke body (.updated value) state with
  | stopped later =>
      rw [ended] at core
      exact fun _ => ((Conduct.freshness κ σ root True).same core holds).1
  | ended outcome later =>
      rw [ended] at core
      have after := (Conduct.freshness κ σ root True).same core holds
      cases outcome with
      | ok value => exact ⟨after.1, after.2, trivial⟩
      | error error => exact fun _ => after

/-- The invariant of runs. -/
def UpToDateOrAccounted (root : RecordId) (history : List (Place × Except Error Unit))
    (state : State κ σ) : Prop :=
  state.Rooted root ∧
    ∀ id binding, state.binding? id = some binding → state.isAlive id = true →
      binding.Current True state.store ∨ binding.Accounted history state.store

theorem accounted_kept {binding : Binding κ} {store store' : Store}
    (kept : ∀ place registry, store.registryAt place = some registry →
      store'.registryAt place = some registry)
    (accounted : binding.Accounted history store) : binding.Accounted history store' := by
  obtain ⟨place, error, registry, failed, attached, subscribed⟩ := accounted
  exact ⟨place, error, registry, failed, kept place registry attached, subscribed⟩

theorem UpToDateOrAccounted.settles (before : UpToDateOrAccounted root history state)
    (holds : later.Rooted root) (settles : state.Settles True later) :
    UpToDateOrAccounted root history later := by
  refine ⟨holds, ?_⟩
  intro id binding found alive
  rcases settles.bindings id binding found alive with current | ⟨stale, found', alive'⟩
  · exact .inl current
  · rcases before.2 id binding found' alive' with current | accounted
    · exact absurd current stale
    · exact .inr (accounted_kept settles.kept accounted)

/-- A write that fails accounts for those of its dependents that had no turn; one that
ends well leaves none of them behind. -/
theorem UpToDateOrAccounted.write (before : UpToDateOrAccounted root history state)
    (quiet : Quiet invoke) {record : RecordId} {key : String} {value : Value}
    (reactive : (state.store.registryAt (.field record key)).isSome)
    (inside : value.Within state.store.Has) {outcome : Except Error Unit}
    (ended : Engine.write invoke (.field record key) value state = .ended outcome later) :
    UpToDateOrAccounted root ((.field record key, outcome) :: history) later := by
  obtain ⟨registry, attached⟩ := Option.isSome_iff_exists.mp reactive
  obtain ⟨old, found⟩ := Store.slot?_of_registryAt attached
  have between := before.1.overwrite attached inside
  have pass := Engine.meets_notifyAll (quiet_keeps quiet) between registry
  rw [Engine.write_of_reactive found] at ended
  rw [ended] at pass
  obtain ⟨holds, settles⟩ := pass.ended trivial
  have kept : ∀ place other, state.store.registryAt place = some other →
      later.store.registryAt place = some other := fun place other attached' =>
    settles.kept place other
      ((Store.continues_overwrite attached value).kept place other attached')
  refine ⟨holds, ?_⟩
  intro id binding present alive
  rcases settles.overwrite before.1 attached present alive with
    current | ⟨present', alive', behind⟩
  · exact .inl current
  · by_cases subscribed : registry ∈ binding.subscriptions
    · have member := ((between.coherent.exact id).joined registry).mpr
        ⟨binding, present', subscribed⟩
      cases outcome with
      | ok result => exact .inl (pass.2.2 id member binding present alive)
      | error error =>
          right
          exact ⟨.field record key, error, registry, by simp, kept _ _ attached, subscribed⟩
    · have stale := behind.resolve_left subscribed
      rcases before.2 id binding present' alive' with current | accounted
      · exact absurd current stale
      · -- another field accounts for it, and its latest write is the same as before
        obtain ⟨place, error, other, failed, attached', subscribed'⟩ := accounted
        have differs : place ≠ .field record key := by
          rintro rfl
          rw [attached] at attached'
          cases attached'
          exact subscribed subscribed'
        have differs' : (place == .field record key) = false := by simpa using differs
        right
        refine ⟨place, error, other, ?_, kept _ _ attached', subscribed'⟩
        rw [List.lookup_cons, differs']
        exact failed

theorem UpToDateOrAccounted.run (quiet : Quiet invoke)
    (first : UpToDateOrAccounted root [] start)
    (run : Run invoke depth root start history state) :
    UpToDateOrAccounted root history state := by
  induction run with
  | start => exact first
  | @step history state later β outcome command before admitted ended induction =>
      have other (silent : ∀ outcome, command.writes outcome = []) :
          UpToDateOrAccounted root (command.writes outcome ++ history) later := by
        have meets := Engine.fresh_perform depth (quiet_keeps quiet) induction.1 command admitted
          silent
        rw [ended] at meets
        rw [silent]
        exact induction.settles (meets.ended trivial).1 (meets.ended trivial).2
      cases command with
      | write place value =>
          cases place with
          | item list index => cases admitted
          | field record key =>
              obtain ⟨reactive, known⟩ := Bool.and_eq_true_iff.mp admitted
              exact induction.write quiet reactive (Store.within_of_knows known) ended
      | _ => exact other (fun _ => rfl)

/-- Between the operations of a run each live binding is up to date or subscribed to a
field whose latest write failed. As long as no write has failed it is up to date. -/
theorem up_to_date_or_accounted (quiet : Quiet invoke) {store : Store}
    (pristine : store.Pristine root) (host : σ)
    (run : Run invoke depth root (State.instrumented store root host) history state) :
    (∀ id binding, state.binding? id = some binding → state.isAlive id = true →
      binding.UpToDate invoke state ∨
      ∃ place error registry, history.lookup place = some (.error error) ∧
        state.store.registryAt place = some registry ∧
        id ∈ state.store.subscribers registry) ∧
    ((∀ write ∈ history, ∀ error, write.2 ≠ .error error) →
      ∀ id binding, state.binding? id = some binding → state.isAlive id = true →
        binding.UpToDate invoke state) := by
  have first : UpToDateOrAccounted root [] (State.instrumented store root host : State κ σ) := by
    refine ⟨rooted_instrumented pristine host, ?_⟩
    intro id binding impossible
    cases impossible
  obtain ⟨holds, bindings⟩ := first.run quiet run
  constructor
  · intro id binding found alive
    rcases bindings id binding found alive with current | accounted
    · exact .inl (current.upToDate ((holds.coherent.exact id).plain binding found) invoke
        holds.coherent.idle)
    · obtain ⟨place, error, registry, failed, attached, subscribed⟩ := accounted
      right
      refine ⟨place, error, registry, failed, attached, ?_⟩
      exact ((holds.coherent.exact id).joined registry).mpr ⟨binding, found, subscribed⟩
  · intro unfailed id binding found alive
    rcases bindings id binding found alive with current | accounted
    · exact current.upToDate ((holds.coherent.exact id).plain binding found) invoke
        holds.coherent.idle
    · obtain ⟨place, error, registry, failed, -, -⟩ := accounted
      obtain ⟨before, after, split, -⟩ := List.lookup_eq_some_iff.mp failed
      exact absurd rfl (unfailed (place, .error error) (by rw [split]; simp) error)

def named : Store := (Store.empty.newRecord [("name", .text "a")]).2

theorem named_pristine : named.Pristine ⟨0⟩ := by
  apply Store.pristine_newRecord
  intro field member
  rw [List.mem_singleton] at member
  rw [member]
  rfl

def choosy : Invoke Bool Unit := fun body occasion state =>
  match body, occasion with
  | true, .updated (.text "b") => .ended (.error (.unknownMethod "b")) state
  | _, _ => .ended (.ok .null) state

theorem choosy_quiet : Quiet choosy := by
  intro body value state _
  have same : (choosy body (.updated value) state).state = state := by
    unfold choosy
    split <;> rfl
  rw [same]
  exact .refl state

def bindName (body : Bool) : Command Bool SubscriberId :=
  .bind "name" (.expression (.identifier "name")) ⟨⟨0⟩, .empty⟩ body

def rename : Command Bool Unit := .write (.field ⟨0⟩ "name") (.text "b")

def after {β : Type} (command : Command Bool β) (state : State Bool Unit) : State Bool Unit :=
  (command.perform choosy 0 state).state

def unwatched : State Bool Unit := State.instrumented named ⟨0⟩ ()

def abandoned : State Bool Unit :=
  after rename (after (bindName false) (after (bindName true) unwatched))

theorem abandoned_run :
    Run choosy 0 ⟨0⟩ unwatched [(.field ⟨0⟩ "name", .error (.unknownMethod "b"))] abandoned := by
  have bound : (bindName true).perform choosy 0 unwatched =
      .ended (.ok ⟨0⟩) (after (bindName true) unwatched) := rfl
  have both : (bindName false).perform choosy 0 (after (bindName true) unwatched) =
      .ended (.ok ⟨1⟩) (after (bindName false) (after (bindName true) unwatched)) := rfl
  have failed : rename.perform choosy 0 (after (bindName false) (after (bindName true) unwatched)) =
      .ended (.error (.unknownMethod "b")) abandoned := rfl
  have first : Run choosy 0 ⟨0⟩ unwatched [] (after (bindName true) unwatched) :=
    Run.step (bindName true) .start rfl bound
  have second : Run choosy 0 ⟨0⟩ unwatched []
      (after (bindName false) (after (bindName true) unwatched)) :=
    Run.step (bindName false) first rfl both
  exact Run.step rename second rfl failed

/-- Of two bindings to a text, the reaction of the first one fails on a new text: the second one
still has the old text, and the failed write accounts for it. -/
theorem up_to_date_or_accounted_abandoned :
    (abandoned.binding? ⟨1⟩).bind Binding.handed = some (.text "a") ∧
    ∀ id binding, abandoned.binding? id = some binding → abandoned.isAlive id = true →
      binding.UpToDate choosy abandoned ∨
      ∃ place error registry,
        [(Place.field ⟨0⟩ "name", (.error (.unknownMethod "b") : Except Error Unit))].lookup
          place = some (.error error) ∧
        abandoned.store.registryAt place = some registry ∧
        id ∈ abandoned.store.subscribers registry :=
  ⟨rfl, (up_to_date_or_accounted choosy_quiet named_pristine () abandoned_run).1⟩

end ReactiveView
