/-!
# Dictionaries in order of arrival

Named entries that keep the order in which their names first arrived. Writing
to a name that is present replaces its entry in place, a new name goes to the
end, and no name occurs twice.
-/

namespace ReactiveView

set_option autoImplicit false

/-- Entries with distinct names, in the order in which the names arrived. -/
structure Dictionary (α : Type) where
  entries : List (String × α)
  distinct : (entries.map Prod.fst).Nodup
  deriving DecidableEq

namespace Dictionary

variable {α : Type}

def empty : Dictionary α := ⟨[], List.nodup_nil⟩

instance : Inhabited (Dictionary α) := ⟨empty⟩

def keys (table : Dictionary α) : List String := table.entries.map Prod.fst

def find? (table : Dictionary α) (key : String) : Option α := table.entries.lookup key

def contains (table : Dictionary α) (key : String) : Bool := (table.find? key).isSome

def size (table : Dictionary α) : Nat := table.entries.length

/-- Replaces the entry of `key` where it stands, or adds one at the end. -/
def insertEntry (key : String) (value : α) : List (String × α) → List (String × α)
  | [] => [(key, value)]
  | (name, old) :: rest =>
      if name = key then (name, value) :: rest
      else (name, old) :: insertEntry key value rest

theorem keys_insertEntry (key : String) (value : α) (entries : List (String × α)) :
    (insertEntry key value entries).map Prod.fst =
      if key ∈ entries.map Prod.fst then entries.map Prod.fst
      else entries.map Prod.fst ++ [key] := by
  induction entries with
  | nil => simp [insertEntry]
  | cons entry rest ih =>
      obtain ⟨name, old⟩ := entry
      by_cases same : name = key
      · simp [insertEntry, same]
      · have other : ¬ key = name := fun equal => same equal.symm
        simp only [insertEntry, if_neg same, List.map_cons, ih, List.mem_cons, other, false_or]
        split <;> simp

theorem nodup_insertEntry (key : String) (value : α) {entries : List (String × α)}
    (distinct : (entries.map Prod.fst).Nodup) :
    ((insertEntry key value entries).map Prod.fst).Nodup := by
  rw [keys_insertEntry]
  split
  · exact distinct
  · next absent =>
      rw [List.nodup_append]
      refine ⟨distinct, by simp, ?_⟩
      intro name present last isLast equal
      rw [List.mem_singleton] at isLast
      exact absent (isLast ▸ equal ▸ present)

def insert (table : Dictionary α) (key : String) (value : α) : Dictionary α :=
  ⟨insertEntry key value table.entries, nodup_insertEntry key value table.distinct⟩

theorem keys_insert (table : Dictionary α) (key : String) (value : α) :
    (table.insert key value).keys =
      if key ∈ table.keys then table.keys else table.keys ++ [key] :=
  keys_insertEntry key value table.entries

theorem lookup_insertEntry (key other : String) (value : α) (entries : List (String × α)) :
    (insertEntry key value entries).lookup other =
      if other = key then some value else entries.lookup other := by
  induction entries with
  | nil =>
      by_cases same : other = key
      · simp [insertEntry, same]
      · have differs : (other == key) = false := by simpa using same
        simp [insertEntry, List.lookup_cons, same, differs]
  | cons entry rest ih =>
      obtain ⟨name, old⟩ := entry
      by_cases same : name = key
      · subst same
        by_cases equal : other = name
        · simp [insertEntry, equal]
        · have differs : (other == name) = false := by simpa using equal
          simp [insertEntry, List.lookup_cons, equal, differs]
      · simp only [insertEntry, if_neg same, List.lookup_cons]
        by_cases equal : other = name
        · subst equal
          simp [same]
        · have differs : (other == name) = false := by simpa using equal
          simp only [differs, ih]

theorem find?_insert (table : Dictionary α) (key other : String) (value : α) :
    (table.insert key value).find? other =
      if other = key then some value else table.find? other :=
  lookup_insertEntry key other value table.entries

def erase (table : Dictionary α) (key : String) : Dictionary α :=
  ⟨table.entries.filter (fun entry => entry.1 ≠ key),
    List.Nodup.sublist (List.Sublist.map _ List.filter_sublist) table.distinct⟩

/-- Inserts one after the other: of two entries with one name, the first gives
the place and the last the value. -/
def ofList (entries : List (String × α)) : Dictionary α :=
  entries.foldl (fun table entry => table.insert entry.1 entry.2) empty

end Dictionary

end ReactiveView
