import ReactiveView.Proofs.Passing
import ReactiveView.Proofs.Performing

/-!
# No subscriber twice

A registry lists each of its subscribers once, whatever callers do with it by hand or by
way of bindings, and wherever a run is stopped.
-/

namespace ReactiveView

set_option autoImplicit false

/-- No registry lists a subscriber twice. -/
def Store.Distinct (store : Store) : Prop :=
  ∀ registry, (store.subscribers registry).Nodup

namespace Store.Distinct

variable {store later : Store}

theorem congr (distinct : store.Distinct)
    (same : ∀ registry, later.subscribers registry = store.subscribers registry) :
    later.Distinct := by
  intro registry
  rw [same]
  exact distinct registry

theorem register (distinct : store.Distinct) (registry : RegistryId)
    (subscriber : SubscriberId) : (store.register registry subscriber).Distinct := by
  intro other
  rcases subscribers_register_cases store registry subscriber other with same | ⟨absent, added⟩
  · rw [same]
    exact distinct other
  · rw [added]
    exact (distinct other).append (List.nodup_singleton subscriber)
      (List.disjoint_singleton.mpr absent)

theorem unregisterAll (distinct : store.Distinct) (registries : List RegistryId)
    (subscriber : SubscriberId) : (store.unregisterAll registries subscriber).Distinct := by
  intro other
  rw [subscribers_unregisterAll]
  split
  · exact (distinct other).filter _
  · exact distinct other

end Store.Distinct

namespace State

variable {κ σ : Type} {state later : State κ σ}

theorem distinct_settle (distinct : state.store.Distinct) (id : SubscriberId) :
    (state.settle id).store.Distinct := by
  unfold settle
  split
  · exact distinct
  · split
    · exact distinct
    · exact distinct.unregisterAll _ id

theorem distinct_release (distinct : state.store.Distinct) (id : SubscriberId)
    (change : Subscriber κ → Subscriber κ) : (state.release id change).store.Distinct := by
  have before : (state.changeSubscriber id change).store.Distinct := distinct
  exact distinct_settle before id

theorem Step.distinct {spared : SubscriberId → Prop} (step : state.Step spared later)
    (distinct : state.store.Distinct) : later.store.Distinct := by
  cases step with
  | data store same _ => exact distinct.congr same
  | outside => exact distinct
  | added => exact distinct
  | handed => exact distinct
  | joined registry id => exact distinct.register registry id
  | left registry id _ => exact distinct.unregisterAll [registry] id
  | dropped id => exact distinct_release distinct id _

theorem Moves.distinct {spared : SubscriberId → Prop} (moves : state.Moves spared later)
    (distinct : state.store.Distinct) : later.store.Distinct := by
  induction moves with
  | refl => exact distinct
  | tail _ step induction => exact step.distinct induction

theorem distinct_read (distinct : state.store.Distinct) (place : Place) :
    (state.read place).2.store.Distinct := by
  have tracked (registry : RegistryId) : (state.track registry).store.Distinct := by
    unfold track
    split
    · exact distinct
    · split
      · exact distinct
      · exact distinct.register registry _
  unfold read
  split
  · exact distinct
  · exact distinct
  · exact tracked _

theorem distinct_reconcile (distinct : state.store.Distinct) (id : SubscriberId)
    (reads : List RegistryId) (data : Store) (outcome : Except Error Value) :
    (state.reconcile id reads data outcome).store.Distinct := by
  unfold reconcile
  split
  · exact distinct
  · exact distinct.unregisterAll _ id
  · exact distinct

end State

open Engine

/-- What is distinct stays so, however a computation goes. -/
def Trail.distinct (κ σ : Type) : Trail κ σ where
  toPassage := {
    leads := fun state later => state.store.Distinct → later.store.Distinct
    asks := fun _ => True
    refl := fun _ => id
    trans := fun first second => second ∘ first
    keeps := fun upkeep => ((Passage.moves κ σ).keeps upkeep).distinct
    edits := fun _ _ _ => id }
  reads := fun _ place distinct => State.distinct_read distinct place
  observes := fun _ _ => id
  enters := fun _ _ => id
  leaves := fun _ id distinct => State.distinct_release distinct id _
  reconciles := fun _ id _ _ _ distinct => State.distinct_reconcile distinct id _ _ _
  sets := fun _ _ _ => id

/-- At no moment of a run does a registry list a subscriber twice. -/
theorem Program.distinct_execute {κ σ α : Type} (code : κ → Occasion κ → Program κ σ Value)
    (program : Program κ σ α) (depth : Nat) (host : σ) :
    (program.execute (Program.invoke code depth) depth
      (State.initial host)).state.store.Distinct := by
  have free : (Trail.distinct κ σ).Free := fun _ _ same _ distinct => distinct.congr same
  have joins : (Trail.distinct κ σ).correspondence.Joins (invoke code depth) (invoke code depth) :=
    joins_invoke free (fun _ _ => asks_anything _) depth
  exact corresponds_execute joins free depth (asks_anything program) (State.initial host)
    (fun _ => List.nodup_nil)

end ReactiveView
