import ReactiveView.Proofs.Subscriptions
import ReactiveView.Proofs.Supervision

/-!
# Cascades settle

Reactions may write, run, make and drop bindings themselves, so that passes nest in one
another. If nothing fails in all of this, then every live binding has been handed what
it evaluates to on the data that are there in the end.
-/

namespace ReactiveView

set_option autoImplicit false

variable {κ σ α : Type} {root : RecordId} {later : State κ σ}

namespace Engine

theorem settles_perform {invoke : Invoke κ σ} (depth : Nat)
    (keeps : (Conduct.freshness κ σ root False).Keeps invoke) {state : State κ σ}
    (holds : state.Rooted root) (command : Command κ α)
    (admitted : command.admitted root state = true) :
    (Conduct.freshness κ σ root False).Meets state (fun _ _ => True)
      (command.perform invoke depth state) := by
  cases command with
  | write place value =>
      cases place with
      | item list index => cases admitted
      | field record key =>
          obtain ⟨reactive, known⟩ := Bool.and_eq_true_iff.mp admitted
          exact fresh_write id keeps holds reactive (Store.within_of_knows known)
  | _ => exact fresh_perform depth keeps holds _ admitted (fun _ => rfl)

end Engine

namespace Program

/-- A supervised program goes on only while nothing has failed, so that it keeps
freshness up to its end, even if this is an error of its own. -/
theorem settles_execute {invoke : Invoke κ σ} {depth : Nat}
    (keeps : (Conduct.freshness κ σ root False).Keeps invoke) (program : Program κ σ α)
    {state : State κ σ} (holds : state.Rooted root) {outcome : Except Error α}
    (ended : (program.supervised root).execute invoke depth state = .ended outcome later) :
    later.Rooted root ∧ state.Settles False later := by
  induction program generalizing state with
  | done result =>
      cases ended
      exact (Conduct.freshness κ σ root False).same (.refl _) holds
  | stop => cases ended
  | inspect next induction => exact induction _ holds ended
  | record change next induction =>
      have core : state.SameCore { state with host := change state.host } := ⟨rfl, rfl, rfl⟩
      obtain ⟨holds', before⟩ := (Conduct.freshness κ σ root False).same core holds
      obtain ⟨final, after⟩ := induction holds' ended
      exact ⟨final, before.trans after⟩
  | perform command next induction =>
      simp only [supervised, execute] at ended
      by_cases admitted : command.admitted root state = true
      · rw [if_pos admitted] at ended
        have meets := Engine.settles_perform depth keeps holds command admitted
        unfold execute at ended
        cases ran : command.perform invoke depth state with
        | stopped between =>
            rw [ran] at ended
            cases ended
        | ended result between =>
            rw [ran] at ended meets
            cases result with
            | error error => cases ended
            | ok value =>
                obtain ⟨final, after⟩ := induction (.ok value) meets.1 ended
                exact ⟨final, meets.2.1.trans after⟩
      · rw [if_neg admitted] at ended
        cases ended

theorem keeps_supervise (root : RecordId) (code : κ → Occasion κ → Program κ σ Value)
    (depth : Nat) :
    (Conduct.freshness κ σ root False).Keeps (invoke (supervise root code) depth) := by
  induction depth with
  | zero =>
      intro body value state holds
      exact False.elim
  | succ depth induction =>
      intro body value state holds
      cases ended : invoke (supervise root code) (depth + 1) body (.updated value) state with
      | stopped later => exact False.elim
      | ended outcome later =>
          have after := settles_execute induction (code body (.updated value)) holds ended
          cases outcome with
          | ok value => exact ⟨after.1, after.2, trivial⟩
          | error error => exact False.elim

end Program

/-- A run that ends under supervision, so that every command in it was admitted and
succeeded at every depth, ends so without supervision, and each live binding has last
been handed the value that it evaluates to in the end. -/
theorem cascades_settle (code : κ → Occasion κ → Program κ σ Value) (program : Program κ σ α)
    {store : Store} (pristine : store.Pristine root) (depth : Nat) (host : σ)
    {outcome : Except Error α}
    (ended : (program.supervised root).execute (Program.invoke (Program.supervise root code) depth)
      depth (State.instrumented store root host) = .ended outcome later) :
    program.execute (Program.invoke code depth) depth (State.instrumented store root host) =
      .ended outcome later ∧
    ∀ id binding, later.binding? id = some binding → later.isAlive id = true →
      ∃ value, binding.handed = some value ∧
        Engine.evaluateFormula (Program.invoke code depth) binding.context binding.formula later =
          .ended (.ok value) later := by
  have start := rooted_instrumented (κ := κ) pristine host
  have keeps := Program.keeps_supervise root code depth
  obtain ⟨holds, settles⟩ := Program.settles_execute keeps program start ended
  refine ⟨Program.below_execute (Program.below_invoke root code depth) program _ _ _ ended, ?_⟩
  intro id binding found alive
  rcases settles.bindings id binding found alive with current | ⟨-, impossible, -⟩
  · exact current.value ((holds.coherent.exact id).plain binding found) not_false _
      holds.coherent.idle
  · -- there were no bindings in the beginning
    cases impossible

def pair : Store := (Store.empty.newRecord [("name", .text "a"), ("shown", .null)]).2

theorem pair_pristine : pair.Pristine ⟨0⟩ := by
  apply Store.pristine_newRecord
  intro field member
  simp only [List.mem_cons, List.not_mem_nil, or_false] at member
  rcases member with rfl | rfl <;> rfl

/-- One binding writes the field that the other one reads, at first and when the name
changes. -/
def linked : Program Bool Unit Unit := do
  let _ ← Program.run
    (.bind "shown" (.expression (.identifier "shown")) ⟨⟨0⟩, .empty⟩ false)
  let _ ← Program.run
    (.bind "name" (.expression (.identifier "name")) ⟨⟨0⟩, .empty⟩ true)
  Program.run (.write (.field ⟨0⟩ "name") (.text "b"))

def Course.succeeds {κ σ α : Type} : Course κ σ α → Bool
  | .ended (.ok _) _ => true
  | _ => false

theorem Course.ended_of_succeeds {κ σ α : Type} {course : Course κ σ α}
    (succeeds : course.succeeds = true) : ∃ value later, course = .ended (.ok value) later := by
  cases course with
  | stopped later => cases succeeds
  | ended outcome later =>
      cases outcome with
      | error error => cases succeeds
      | ok value => exact ⟨value, later, rfl⟩

theorem cascades_settle_linked :
    ∃ later, linked.execute (Program.invoke relay 2) 2 (State.instrumented pair ⟨0⟩ ()) =
        .ended (.ok ()) later ∧
      ∀ id binding, later.binding? id = some binding → later.isAlive id = true →
        ∃ value, binding.handed = some value ∧
          Engine.evaluateFormula (Program.invoke relay 2) binding.context binding.formula later =
            .ended (.ok value) later := by
  have succeeds : ((linked.supervised ⟨0⟩).execute (Program.invoke (Program.supervise ⟨0⟩ relay) 2)
      2 (State.instrumented pair ⟨0⟩ ())).succeeds = true := by decide +kernel
  obtain ⟨value, later, ended⟩ := Course.ended_of_succeeds succeeds
  exact ⟨later, cascades_settle relay linked pair_pristine 2 () ended⟩

end ReactiveView
