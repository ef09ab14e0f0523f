import ReactiveView.Proofs.Lifetimes
import ReactiveView.Proofs.Making

/-!
# The history of a run

What a run does to the document, told as a list of events: edits by callers' code and by
compilations, bindings that come into being, and what the reactions of bindings set. Every
run has such a history, however passes and callers' code are nested in one another, and
it begins with the binding wherever the reaction of a binding sets something.
-/

namespace ReactiveView

set_option autoImplicit false

open Engine

/-- What happens to the document in a run, and to bindings. -/
inductive Event (κ : Type) where
  | edited (edit : Document.Edit (Listener κ))
  /-- A binding comes into being. -/
  | bound (id : SubscriberId) (reaction : Reaction κ)
  | set (id : SubscriberId) (setting : Document.Setting)

namespace Event

variable {κ : Type}

def edit? : Event κ → Option (Document.Edit (Listener κ))
  | edited edit => some edit
  | bound _ _ => none
  | set _ setting => some setting.edit

def edits (history : List (Event κ)) : List (Document.Edit (Listener κ)) :=
  history.filterMap edit?

theorem edits_append (first second : List (Event κ)) :
    edits (first ++ second) = edits first ++ edits second := List.filterMap_append

end Event

namespace State

variable {κ σ : Type} {asks : Document.Setting → Prop} {start state later final : State κ σ}
  {history : List (Event κ)} {id : SubscriberId}

/-- Neither the document changes nor what is fixed of any binding. -/
structure Aside (state later : State κ σ) : Prop where
  document : later.document = state.document
  blueprints : ∀ id, later.blueprint? id = state.blueprint? id

/-- An event leads from a state to another one. Callers' code sets only what it may ask
for, and a reaction sets what it makes of the value handed to its binding. -/
inductive Occurs (asks : Document.Setting → Prop) (state : State κ σ) :
    Event κ → State κ σ → Prop where
  | edited (edit : Document.Edit (Listener κ))
      (asked : ∀ setting, edit.setting? = some setting → asks setting) :
      Occurs asks state (.edited edit) (state.changeDocument (fun document => edit.make document))
  | bound (binding : Binding κ) :
      Occurs asks state (.bound ⟨state.subscribers.size⟩ binding.reaction)
        (state.addSubscriber ⟨.binding binding, true, 0⟩).2
  | set {id : SubscriberId} {binding : Binding κ} {value : Value} {setting : Document.Setting}
      (found : state.binding? id = some binding) (handed : binding.handed = some value)
      (sets : binding.reaction.setting? state.store value = some setting) :
      Occurs asks state (.set id setting)
        (state.changeDocument (fun document => document.set setting))

/-- A list of events leads from a state to another one. -/
inductive Recorded (asks : Document.Setting → Prop) (start : State κ σ) :
    List (Event κ) → State κ σ → Prop where
  | start : Recorded asks start [] start
  | aside {history : List (Event κ)} {state later : State κ σ}
      (recorded : Recorded asks start history state) (aside : state.Aside later) :
      Recorded asks start history later
  | occurs {history : List (Event κ)} {event : Event κ} {state later : State κ σ}
      (recorded : Recorded asks start history state) (occurs : state.Occurs asks event later) :
      Recorded asks start (history ++ [event]) later

/-- Some history leads from a state to another one. -/
def Leads (asks : Document.Setting → Prop) (state later : State κ σ) : Prop :=
  ∃ history, state.Recorded asks history later

theorem Leads.refl (state : State κ σ) : state.Leads asks state := ⟨[], .start⟩

theorem Aside.leads (aside : state.Aside later) : state.Leads asks later :=
  ⟨[], .aside .start aside⟩

theorem Occurs.leads {event : Event κ} (occurs : state.Occurs asks event later) :
    state.Leads asks later :=
  ⟨[] ++ [event], .occurs .start occurs⟩

theorem Leads.trans (first : state.Leads asks later) (second : later.Leads asks final) :
    state.Leads asks final := by
  obtain ⟨before, recorded⟩ := first
  obtain ⟨history, recorded'⟩ := second
  induction recorded' with
  | start => exact ⟨before, recorded⟩
  | aside _ aside induction =>
      obtain ⟨whole, recorded⟩ := induction
      exact ⟨whole, .aside recorded aside⟩
  | occurs _ occurs induction =>
      obtain ⟨whole, recorded⟩ := induction
      exact ⟨whole ++ [_], .occurs recorded occurs⟩

theorem blueprint?_of_binding? {binding : Binding κ} (found : state.binding? id = some binding) :
    state.blueprint? id = some binding.blueprint := by
  rw [blueprint?, found, Option.map_some]

theorem blueprint?_addSubscriber_of_ne (state : State κ σ) (subscriber : Subscriber κ)
    (differs : id ≠ ⟨state.subscribers.size⟩) :
    (state.addSubscriber subscriber).2.blueprint? id = state.blueprint? id := by
  rw [blueprint?, (sameButFor_addSubscriber state subscriber).binding? differs, blueprint?]

theorem blueprint?_size (state : State κ σ) : state.blueprint? ⟨state.subscribers.size⟩ = none := by
  have absent : state.subscriber? ⟨state.subscribers.size⟩ = none :=
    Array.getElem?_eq_none (Nat.le_refl _)
  simp only [blueprint?, binding?, absent, Option.map_none]

theorem Occurs.blueprint? {event : Event κ} (occurs : state.Occurs asks event later)
    {blueprint : Blueprint κ} (planned : state.blueprint? id = some blueprint) :
    later.blueprint? id = some blueprint := by
  cases occurs with
  | edited edit asked => exact planned
  | bound binding =>
      rw [blueprint?_addSubscriber_of_ne, planned]
      rintro rfl
      rw [blueprint?_size] at planned
      cases planned
  | set => exact planned

theorem Leads.blueprint? (leads : state.Leads asks later) {blueprint : Blueprint κ}
    (planned : state.blueprint? id = some blueprint) : later.blueprint? id = some blueprint := by
  obtain ⟨history, recorded⟩ := leads
  induction recorded with
  | start => exact planned
  | aside _ aside induction => rw [aside.blueprints, induction]
  | occurs _ occurs induction => exact occurs.blueprint? induction

theorem Aside.of_subscribers (document : later.document = state.document)
    (subscribers : later.subscribers = state.subscribers) : state.Aside later where
  document := document
  blueprints := fun id => by simp only [blueprint?, binding?, subscriber?, subscribers]

theorem Aside.trans (first : state.Aside later) (second : later.Aside final) :
    state.Aside final where
  document := second.document.trans first.document
  blueprints := fun id => (second.blueprints id).trans (first.blueprints id)

theorem aside_changeStore (state : State κ σ) (change : Store → Store) :
    state.Aside (state.changeStore change) := .of_subscribers rfl rfl

theorem aside_changeSubscriber (state : State κ σ) (id : SubscriberId)
    {change : Subscriber κ → Subscriber κ}
    (same : ∀ subscriber, (change subscriber).role = subscriber.role) :
    state.Aside (state.changeSubscriber id change) where
  document := rfl
  blueprints := fun other => by rw [blueprint?, binding?_changeSubscriber state id same, blueprint?]

theorem aside_changeBinding (state : State κ σ) (id : SubscriberId)
    {change : Binding κ → Binding κ}
    (same : ∀ binding, (change binding).blueprint = binding.blueprint) :
    state.Aside (state.changeBinding id change) where
  document := rfl
  blueprints := by
    intro other
    rw [blueprint?, binding?_changeBinding, blueprint?]
    split
    · next here =>
        rw [here, Option.map_map]
        congr 1
        funext binding
        exact same binding
    · rfl

theorem aside_settle (state : State κ σ) (id : SubscriberId) : state.Aside (state.settle id) := by
  unfold settle
  split
  · exact .of_subscribers rfl rfl
  · split
    · exact .of_subscribers rfl rfl
    · exact (aside_changeStore _ _).trans (aside_changeBinding _ id (fun _ => rfl))

theorem aside_enter (state : State κ σ) (id : SubscriberId) : state.Aside (state.enter id) :=
  aside_changeSubscriber state id (fun _ => rfl)

theorem aside_release (state : State κ σ) (id : SubscriberId)
    {change : Subscriber κ → Subscriber κ} (releases : Releases change) :
    state.Aside (state.release id change) :=
  (aside_changeSubscriber state id releases.role).trans (aside_settle _ id)

theorem aside_hand (state : State κ σ) (id : SubscriberId) (value : Value) :
    state.Aside (state.hand id value) :=
  aside_changeBinding state id (fun _ => rfl)

theorem aside_track (state : State κ σ) (registry : RegistryId) :
    state.Aside (state.track registry) := by
  unfold track
  split
  · exact .of_subscribers rfl rfl
  · split
    · exact .of_subscribers rfl rfl
    · exact .of_subscribers rfl rfl

theorem aside_read (state : State κ σ) (place : Place) : state.Aside (state.read place).2 := by
  unfold read
  split
  · exact .of_subscribers rfl rfl
  · exact .of_subscribers rfl rfl
  · exact aside_track state _

theorem aside_reconcile (state : State κ σ) (id : SubscriberId) (reads : List RegistryId)
    (data : Store) (outcome : Except Error Value) :
    state.Aside (state.reconcile id reads data outcome) := by
  unfold reconcile
  split
  · exact .of_subscribers rfl rfl
  · exact (aside_changeStore _ _).trans (aside_changeBinding _ id (fun _ => rfl))
  · exact aside_changeBinding _ id (fun _ => rfl)

theorem aside_addSubscriber (state : State κ σ) (body : κ) :
    state.Aside (state.addSubscriber ⟨.code body, true, 0⟩).2 where
  document := rfl
  blueprints := by
    intro id
    by_cases new : id = ⟨state.subscribers.size⟩
    · have added := subscriber?_addSubscriber state ⟨.code body, true, 0⟩
      rw [new, blueprint?_size]
      simp only [blueprint?, binding?, added, Option.map_none]
    · exact blueprint?_addSubscriber_of_ne state _ new

end State

end ReactiveView
