import ReactiveView.Proofs.Registries

/-!
# A notification pass, whatever subscribers do

A pass goes over the subscribers that were in its registry when it began. What they do at
their turns is arbitrary: they may join and leave, let others join and leave, drop them, and
begin further passes over the same registry. Of each the pass asks at its turn whether it is
in the registry and alive then.
-/

namespace ReactiveView

set_option autoImplicit false

namespace Engine

variable {κ σ : Type} {invoke : Invoke κ σ} {registry : RegistryId} {id : SubscriberId}
  {state later : State κ σ}

inductive Treatment where
  | skipped
  | removed
  | notified
  deriving DecidableEq

structure Visit (κ σ : Type) where
  id : SubscriberId
  found : State κ σ
  left : State κ σ
  treatment : Treatment

/-- A subscriber that is not in the registry at its turn is skipped, one that is dead is
taken out, and all others are notified. -/
inductive Visited (invoke : Invoke κ σ) (registry : RegistryId) :
    Visit κ σ → Course κ σ Unit → Prop where
  | skipped {id : SubscriberId} {state : State κ σ}
      (gone : id ∉ state.store.subscribers registry) :
      Visited invoke registry ⟨id, state, state, .skipped⟩ (.ended (.ok ()) state)
  | removed {id : SubscriberId} {state later : State κ σ}
      (member : id ∈ state.store.subscribers registry) (dead : state.isAlive id = false)
      (out : state.changeStore (·.unregister registry id) = later) :
      Visited invoke registry ⟨id, state, later, .removed⟩ (.ended (.ok ()) later)
  | notified {id : SubscriberId} {state later : State κ σ} {course : Course κ σ Unit}
      (member : id ∈ state.store.subscribers registry) (alive : state.isAlive id = true)
      (ran : notify invoke id state = course) (ends : course.state = later) :
      Visited invoke registry ⟨id, state, later, .notified⟩ course

/-- Visits one after the other, each in the state that the one before has left. The first
error ends them, and a stop does. -/
inductive Pass (invoke : Invoke κ σ) (registry : RegistryId) :
    State κ σ → List SubscriberId → List (Visit κ σ) → Course κ σ Unit → Prop where
  | done (state : State κ σ) : Pass invoke registry state [] [] (.ended (.ok ()) state)
  | next {visit : Visit κ σ} {rest : List SubscriberId} {visits : List (Visit κ σ)}
      {course : Course κ σ Unit}
      (visited : Visited invoke registry visit (.ended (.ok ()) visit.left))
      (others : Pass invoke registry visit.left rest visits course) :
      Pass invoke registry visit.found (visit.id :: rest) (visit :: visits) course
  | broken {visit : Visit κ σ} {error : Error} (missed : List SubscriberId)
      (visited : Visited invoke registry visit (.ended (.error error) visit.left)) :
      Pass invoke registry visit.found (visit.id :: missed) [visit]
        (.ended (.error error) visit.left)
  | halted {visit : Visit κ σ} (missed : List SubscriberId)
      (visited : Visited invoke registry visit (.stopped visit.left)) :
      Pass invoke registry visit.found (visit.id :: missed) [visit] (.stopped visit.left)

/-- The subscribers that a pass has notified, in order. -/
def called (visits : List (Visit κ σ)) : List SubscriberId :=
  (visits.filter (fun visit => visit.treatment = .notified)).map Visit.id

theorem visited_takeTurn (invoke : Invoke κ σ) (registry : RegistryId) (id : SubscriberId)
    (state : State κ σ) :
    ∃ treatment, Visited invoke registry
      ⟨id, state, (takeTurn invoke registry id state).state, treatment⟩
      (takeTurn invoke registry id state) := by
  have turn : takeTurn invoke registry id state =
      (if decide (id ∈ state.store.subscribers registry) then
        (if state.isAlive id then notify invoke id
          else alter (State.changeStore (·.unregister registry id)))
      else pure ()) state := rfl
  rw [turn]
  by_cases member : id ∈ state.store.subscribers registry
  · cases alive : state.isAlive id with
    | true =>
        simp only [member, decide_true, if_true]
        exact ⟨.notified, .notified member alive rfl rfl⟩
    | false =>
        simp only [member, decide_true, if_true, Bool.false_eq_true, if_false]
        exact ⟨.removed, .removed member alive rfl⟩
  · simp only [member, decide_false, Bool.false_eq_true, if_false]
    exact ⟨.skipped, .skipped member⟩

/-- By induction on those still to come, from whatever state the turns so far have left. -/
theorem pass_forEach (invoke : Invoke κ σ) (registry : RegistryId) (ids : List SubscriberId)
    (state : State κ σ) :
    ∃ visits, Pass invoke registry state ids visits
      (forEach (takeTurn invoke registry) ids state) := by
  induction ids generalizing state with
  | nil => exact ⟨[], .done state⟩
  | cons id rest induction =>
      obtain ⟨treatment, visited⟩ := visited_takeTurn invoke registry id state
      change ∃ visits, Pass invoke registry state (id :: rest) visits
        ((takeTurn invoke registry id >>= fun _ => forEach (takeTurn invoke registry) rest) state)
      cases ran : takeTurn invoke registry id state with
      | stopped later =>
          rw [ran] at visited
          simp only [Bind.bind, bind, ran]
          exact ⟨_, .halted rest visited⟩
      | ended outcome later =>
          rw [ran] at visited
          cases outcome with
          | error error =>
              rw [bind_of_error ran]
              exact ⟨_, .broken rest visited⟩
          | ok result =>
              rw [bind_of_ok ran]
              obtain ⟨visits, others⟩ := induction later
              exact ⟨_, .next visited others⟩

namespace Visited

variable {visit : Visit κ σ} {course : Course κ σ Unit}

theorem notified_iff (visited : Visited invoke registry visit course) :
    visit.treatment = .notified ↔
      visit.id ∈ visit.found.store.subscribers registry ∧
        visit.found.isAlive visit.id = true := by
  cases visited with
  | skipped gone => exact iff_of_false nofun fun due => gone due.1
  | removed member dead out =>
      refine iff_of_false nofun fun due => ?_
      rw [dead] at due
      exact Bool.false_ne_true due.2
  | notified member alive ran ends => exact iff_of_true rfl ⟨member, alive⟩

theorem removed_iff (visited : Visited invoke registry visit course) :
    visit.treatment = .removed ↔
      visit.id ∈ visit.found.store.subscribers registry ∧
        visit.found.isAlive visit.id = false := by
  cases visited with
  | skipped gone => exact iff_of_false nofun fun due => gone due.1
  | removed member dead out => exact iff_of_true rfl ⟨member, dead⟩
  | notified member alive ran ends =>
      refine iff_of_false nofun fun due => ?_
      rw [alive] at due
      exact Bool.false_ne_true due.2.symm

theorem ran (visited : Visited invoke registry visit course)
    (notified : visit.treatment = .notified ∨ course ≠ .ended (.ok ()) visit.left) :
    visit.treatment = .notified ∧ notify invoke visit.id visit.found = course := by
  cases visited with
  | skipped gone => exact (notified.elim nofun fun other => other rfl).elim
  | removed member dead out => exact (notified.elim nofun fun other => other rfl).elim
  | notified member alive ran ends => exact ⟨rfl, ran⟩

theorem out (visited : Visited invoke registry visit course)
    (removed : visit.treatment = .removed) :
    visit.left = visit.found.changeStore (·.unregister registry visit.id) := by
  cases visited with
  | removed member dead out => exact out.symm
  | skipped => cases removed
  | notified => cases removed

end Visited

namespace Pass

variable {ids : List SubscriberId} {visits : List (Visit κ σ)} {course : Course κ σ Unit}

/-- Visits are made in order, to all up to the one that ends the pass. -/
theorem order (pass : Pass invoke registry state ids visits course) :
    visits.map Visit.id <+: ids := by
  induction pass with
  | done => exact List.prefix_rfl
  | next _ _ induction => exact List.cons_prefix_cons.mpr ⟨rfl, induction⟩
  | broken missed => exact ⟨missed, rfl⟩
  | halted missed => exact ⟨missed, rfl⟩

theorem present (pass : Pass invoke registry state ids visits course) :
    (called visits).Sublist ids :=
  (List.filter_sublist.map Visit.id).trans pass.order.sublist

theorem complete (pass : Pass invoke registry state ids visits (.ended (.ok ()) later)) :
    visits.map Visit.id = ids := by
  generalize same : Course.ended (.ok ()) later = course at pass
  induction pass with
  | done => rfl
  | next _ _ induction => exact congrArg _ (induction same)
  | broken => cases same
  | halted => cases same

theorem visited (pass : Pass invoke registry state ids visits course) :
    ∀ visit ∈ visits, ∃ course, Visited invoke registry visit course := by
  induction pass with
  | done => exact fun _ none => absurd none List.not_mem_nil
  | next visited _ induction => exact List.forall_mem_cons.mpr ⟨⟨_, visited⟩, induction⟩
  | broken _ visited => exact List.forall_mem_singleton.mpr ⟨_, visited⟩
  | halted _ visited => exact List.forall_mem_singleton.mpr ⟨_, visited⟩

theorem failed {error : Error}
    (pass : Pass invoke registry state ids visits (.ended (.error error) later)) :
    ∃ before last, visits = before ++ [last] ∧ last.treatment = .notified ∧
      notify invoke last.id last.found = .ended (.error error) later ∧
      ∀ visit ∈ before, visit.treatment = .notified →
        notify invoke visit.id visit.found = .ended (.ok ()) visit.left := by
  generalize same : Course.ended (.error error) later = course at pass
  induction pass with
  | done => cases same
  | next visited _ induction =>
      obtain ⟨before, last, split, notified, fails, fine⟩ := induction same
      refine ⟨_ :: before, last, congrArg _ split, notified, fails, ?_⟩
      exact List.forall_mem_cons.mpr ⟨fun notified => (visited.ran (.inl notified)).2, fine⟩
  | broken _ visited =>
      obtain ⟨notified, ran⟩ := visited.ran (.inr nofun)
      exact ⟨[], _, rfl, notified, ran, fun _ none => absurd none List.not_mem_nil⟩
  | halted => cases same

end Pass

/-- How a pass deals with the subscribers that it began with. -/
structure Orderly (invoke : Invoke κ σ) (registry : RegistryId) (snapshot : List SubscriberId)
    (visits : List (Visit κ σ)) (course : Course κ σ Unit) : Prop where
  order : visits.map Visit.id <+: snapshot
  present : (called visits).Sublist snapshot
  once : (called visits).Nodup
  notified : ∀ visit ∈ visits, visit.treatment = .notified ↔
    visit.id ∈ visit.found.store.subscribers registry ∧ visit.found.isAlive visit.id = true
  removed : ∀ visit ∈ visits, visit.treatment = .removed ↔
    visit.id ∈ visit.found.store.subscribers registry ∧ visit.found.isAlive visit.id = false
  /-- The others keep their order, and other registries keep theirs. -/
  out : ∀ visit ∈ visits, visit.treatment = .removed →
    visit.left = visit.found.changeStore (·.unregister registry visit.id) ∧
    ∀ other, visit.left.store.subscribers other =
      if other = registry then (visit.found.store.subscribers registry).filter (· ≠ visit.id)
      else visit.found.store.subscribers other
  failed : ∀ error later, course = .ended (.error error) later →
    ∃ before last, visits = before ++ [last] ∧ last.treatment = .notified ∧
      notify invoke last.id last.found = .ended (.error error) later ∧
      ∀ visit ∈ before, visit.treatment = .notified →
        notify invoke visit.id visit.found = .ended (.ok ()) visit.left
  complete : ∀ later, course = .ended (.ok ()) later → visits.map Visit.id = snapshot
  /-- It is enough to be there at one's turn. -/
  steady : ∀ later, course = .ended (.ok ()) later → ∀ id ∈ snapshot,
    (∀ visit ∈ visits, visit.id = id →
      id ∈ visit.found.store.subscribers registry ∧ visit.found.isAlive id = true) →
    (called visits).count id = 1

theorem Pass.orderly {ids : List SubscriberId} {visits : List (Visit κ σ)}
    {course : Course κ σ Unit} (pass : Pass invoke registry state ids visits course)
    (distinct : ids.Nodup) : Orderly invoke registry ids visits course where
  order := pass.order
  present := pass.present
  once := pass.present.nodup distinct
  notified := by
    intro visit member
    obtain ⟨course, visited⟩ := pass.visited visit member
    exact visited.notified_iff
  removed := by
    intro visit member
    obtain ⟨course, visited⟩ := pass.visited visit member
    exact visited.removed_iff
  out := by
    intro visit member removed
    obtain ⟨course, visited⟩ := pass.visited visit member
    have out := visited.out removed
    rw [out]
    exact ⟨rfl, Store.subscribers_unregister visit.found.store registry visit.id⟩
  failed := by
    rintro error later rfl
    exact pass.failed
  complete := by
    rintro later rfl
    exact pass.complete
  steady := by
    rintro later rfl id member there
    rw [← pass.complete] at member
    obtain ⟨visit, made, rfl⟩ := List.mem_map.mp member
    obtain ⟨course, visited⟩ := pass.visited visit made
    have notified := visited.notified_iff.mpr (there visit made rfl)
    apply List.count_eq_one_of_mem (pass.present.nodup distinct)
    exact List.mem_map_of_mem (List.mem_filter.mpr ⟨made, decide_eq_true notified⟩)

/-- Whatever subscribers do at their turns, a pass over a registry notifies some of those that
were there when it began, in their order and each once: those that are there and alive at
their turn. -/
theorem passes_keep_order (invoke : Invoke κ σ) (registry : RegistryId) (state : State κ σ)
    (distinct : (state.store.subscribers registry).Nodup) :
    ∃ visits,
      Pass invoke registry state (state.store.subscribers registry) visits
        (notifyAll invoke registry state) ∧
      Orderly invoke registry (state.store.subscribers registry) visits
        (notifyAll invoke registry state) := by
  obtain ⟨visits, pass⟩ :=
    pass_forEach invoke registry (state.store.subscribers registry) state
  have whole : notifyAll invoke registry state =
      forEach (takeTurn invoke registry) (state.store.subscribers registry) state := rfl
  rw [whole]
  exact ⟨visits, pass, pass.orderly distinct⟩

end Engine

open Engine

/-- At its first turn the first subscriber lets others leave, come back and die, and the last
one begins a pass within the pass. All note that they run. -/
def unruly : Nat → Occasion Nat → Program Nat (List Nat) Value
  | 0, .notified => do
      let earlier ← Program.look State.host
      Program.keep (· ++ [0])
      if earlier = [] then do
        let _ ← Program.run (.unregister ⟨0⟩ ⟨1⟩)
        let _ ← Program.run (.register ⟨0⟩ ⟨1⟩)
        let _ ← Program.run (.unregister ⟨0⟩ ⟨2⟩)
        Program.run (.drop ⟨3⟩)
        pure .null
      else pure .null
  | 4, .notified => do
      let earlier ← Program.look State.host
      Program.keep (· ++ [4])
      if 4 ∈ earlier then pure .null
      else do
        Program.run (.notifyAll ⟨0⟩)
        pure .null
  | name, _ => do
      Program.keep (· ++ [name])
      pure .null

def join (registry : RegistryId) (name : Nat) : Program Nat (List Nat) Unit := do
  let subscriber ← Program.run (.newSubscriber name)
  let _ ← Program.run (.register registry subscriber)
  pure ()

def assembly : Program Nat (List Nat) Unit := do
  let registry ← Program.run .newRegistry
  join registry 0
  join registry 1
  join registry 2
  join registry 3
  join registry 4

def assembled : State Nat (List Nat) :=
  (assembly.execute (Program.invoke unruly 2) 2 (State.initial [])).state

/-- The second one has come back behind the last one, and still has its turn in its old place;
the third one has left, the fourth one is taken out, and the pass within the pass is one
over those that are left, in their new order. -/
theorem passes_keep_order_unruly :
    (assembled.store.subscribers ⟨0⟩).Nodup ∧
    assembled.store.subscribers ⟨0⟩ = [⟨0⟩, ⟨1⟩, ⟨2⟩, ⟨3⟩, ⟨4⟩] ∧
    (notifyAll (Program.invoke unruly 2) ⟨0⟩ assembled).state.host = [0, 1, 4] ++ [0, 4, 1] ∧
    (notifyAll (Program.invoke unruly 2) ⟨0⟩ assembled).state.store.subscribers ⟨0⟩ =
      [⟨0⟩, ⟨4⟩, ⟨1⟩] ∧
    ∃ visits,
      Pass (Program.invoke unruly 2) ⟨0⟩ assembled (assembled.store.subscribers ⟨0⟩) visits
        (notifyAll (Program.invoke unruly 2) ⟨0⟩ assembled) ∧
      Orderly (Program.invoke unruly 2) ⟨0⟩ (assembled.store.subscribers ⟨0⟩) visits
        (notifyAll (Program.invoke unruly 2) ⟨0⟩ assembled) := by
  have distinct : (assembled.store.subscribers ⟨0⟩).Nodup :=
    Program.distinct_execute unruly assembly 2 [] ⟨0⟩
  exact ⟨distinct, by decide +kernel, by decide +kernel, by decide +kernel,
    passes_keep_order (Program.invoke unruly 2) ⟨0⟩ assembled distinct⟩

end ReactiveView
