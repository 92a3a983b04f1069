import Mathlib.Logic.Function.Basic

/-! Partial maps as functions into `Option`: the entries of a map after one of them was set or removed. -/

namespace Function
variable {α β : Type} [DecidableEq α] {f : α → Option β} {k x : α} {v y : β}

/-- An entry after the entry of `k` was set. -/
theorem update_some_cases (h : update f k (some v) x = some y) : x = k ∧ y = v ∨ x ≠ k ∧ f x = some y := by
  rw [update_apply] at h
  split at h
  · next hx => exact Or.inl ⟨hx, (Option.some.inj h).symm⟩
  · next hx => exact Or.inr ⟨hx, h⟩

/-- An entry after the entry of `k` was removed. -/
theorem update_none_cases (h : update f k none x = some y) : x ≠ k ∧ f x = some y := by
  rw [update_apply] at h
  split at h
  · cases h
  · next hx => exact ⟨hx, h⟩

/-- A missing entry after the entry of `k` was set. -/
theorem update_eq_none_cases (h : update f k (some v) x = none) : x ≠ k ∧ f x = none := by
  rw [update_apply] at h
  split at h
  · cases h
  · next hx => exact ⟨hx, h⟩

end Function
