import Mathlib.Data.List.Count
import Mathlib.Data.List.Nodup
import Mathlib.Data.List.Perm.Subperm

/-!
# Lists without repetitions

How long such a list can be, and how often a predicate holds in it.
-/

namespace ReactiveView

set_option autoImplicit false

variable {α : Type} {list : List α}

/-- There are no more elements than positions for them. -/
theorem length_le_of_positions {position : α → Nat} {bound : Nat}
    (injective : Function.Injective position) (distinct : list.Nodup)
    (inside : ∀ element ∈ list, position element < bound) : list.length ≤ bound := by
  have positions : (list.map position).Nodup := distinct.map injective
  have covered : list.map position ⊆ List.range bound := by
    intro index member
    obtain ⟨element, among, rfl⟩ := List.mem_map.mp member
    exact List.mem_range.mpr (inside element among)
  have short := (List.subperm_of_subset positions covered).length_le
  simpa using short

theorem countP_eq_one_iff {p : α → Bool} {element : α}
    (distinct : list.Nodup) (member : element ∈ list) (holds : p element = true) :
    list.countP p = 1 ↔ ∀ other ∈ list, p other = true → other = element := by
  classical
  constructor
  · intro once other member' holds'
    rw [List.countP_eq_length_filter] at once
    obtain ⟨single, same⟩ := List.length_eq_one_iff.mp once
    have first : other ∈ list.filter p := List.mem_filter.mpr ⟨member', holds'⟩
    have second : element ∈ list.filter p := List.mem_filter.mpr ⟨member, holds⟩
    rw [same, List.mem_singleton] at first second
    exact first.trans second.symm
  · intro alone
    rw [← List.count_eq_one_of_mem distinct member]
    apply List.countP_congr
    intro other member'
    rw [beq_iff_eq]
    exact ⟨alone other member', fun same => same ▸ holds⟩

end ReactiveView
