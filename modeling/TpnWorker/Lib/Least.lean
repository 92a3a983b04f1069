import Mathlib.Order.Bounds.Basic
import Mathlib.Data.List.Destutter
import Mathlib.Data.List.Pairwise
import Mathlib.Data.List.Sort

/-! Scans of ascending lists: the first match is the least one. A list that is sorted and freed of repetitions is ascending,
    and two ascending lists with the same elements are equal. -/

namespace List
variable {α : Type} [LinearOrder α] {l : List α} {p : α → Bool} {a : α}

theorem isLeast_of_find? (hl : l.Pairwise (· < ·)) (h : l.find? p = some a) : IsLeast {x | x ∈ l ∧ p x = true} a := by
  obtain ⟨hp, before, after, rfl, hbefore⟩ := find?_eq_some_iff_append.mp h
  refine ⟨⟨mem_append_right _ mem_cons_self, hp⟩, ?_⟩
  rintro x ⟨hx, hpx⟩
  rcases mem_append.mp hx with hx | hx
  · have hnot := hbefore x hx
    rw [hpx] at hnot
    cases hnot
  · rcases mem_cons.mp hx with rfl | hx
    · exact le_rfl
    · exact ((pairwise_cons.mp (pairwise_append.mp hl).2.1).1 x hx).le

theorem find?_eq_some_iff_isLeast (hl : l.Pairwise (· < ·)) :
    l.find? p = some a ↔ IsLeast {x | x ∈ l ∧ p x = true} a := by
  refine ⟨isLeast_of_find? hl, fun h => ?_⟩
  cases hfind : l.find? p with
  | none => exact absurd h.1.2 (find?_eq_none.mp hfind a h.1.1)
  | some b => rw [(isLeast_of_find? hl hfind).unique h]

/-! ### Sorting -/

variable {l' : List α}

theorem mem_destutter_mergeSort : a ∈ (l.mergeSort fun a b => decide (a ≤ b)).destutter (· ≠ ·) ↔ a ∈ l := by
  rw [(pairwise_mergeSort' (· ≤ ·) l).destutter_eq_dedup, mem_dedup, mem_mergeSort]

theorem pairwise_destutter_mergeSort (l : List α) :
    ((l.mergeSort fun a b => decide (a ≤ b)).destutter (· ≠ ·)).Pairwise (· < ·) := by
  have hsorted := pairwise_mergeSort' (· ≤ ·) l
  rw [hsorted.destutter_eq_dedup]
  exact ((hsorted.sublist (dedup_sublist _)).and (nodup_dedup _)).imp fun h => lt_of_le_of_ne h.1 h.2

theorem eq_of_pairwise_lt (hl : l.Pairwise (· < ·)) (hl' : l'.Pairwise (· < ·)) (h : ∀ a, a ∈ l ↔ a ∈ l') : l = l' := by
  have : Std.Irrefl fun a b : α => a < b := ⟨lt_irrefl⟩
  have : Std.Antisymm fun a b : α => a < b := ⟨fun _ _ hab hba => absurd hba (lt_asymm hab)⟩
  exact hl.eq_of_mem_iff hl' fun {a} => h a

end List
