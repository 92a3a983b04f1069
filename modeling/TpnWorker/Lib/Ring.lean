import Mathlib.Data.List.DropRight

/-! A queue that drops its first element whenever it has exactly `n` of them before another one is added. -/

namespace Ring

variable {α : Type} {n : ℕ} {ring l : List α} {x : α}

/-- Add an element at the back, after dropping the front one if there are `n`. -/
def push (n : ℕ) (ring : List α) (x : α) : List α := (if ring.length = n then ring.tail else ring) ++ [x]

theorem length_rtake (n : ℕ) (l : List α) : (l.rtake n).length = min n l.length := by
  rw [List.rtake, List.length_drop]
  omega

theorem rtake_eq_self (h : l.length ≤ n) : l.rtake n = l := by
  rw [List.rtake, Nat.sub_eq_zero_of_le h, List.drop_zero]

theorem rtake_rtake {m : ℕ} (h : m ≤ n) : (l.rtake n).rtake m = l.rtake m := by
  rw [List.rtake, length_rtake, List.rtake, List.rtake, List.drop_drop]
  congr 1
  omega

theorem push_rtake (h : 0 < n) : push n (l.rtake n) x = (l ++ [x]).rtake n := by
  obtain ⟨m, rfl⟩ : ∃ m, n = m + 1 := ⟨n - 1, by omega⟩
  rw [List.rtake_concat_succ, push, length_rtake]
  congr 1
  by_cases hfull : m + 1 ≤ l.length
  · rw [if_pos (by omega), List.rtake, List.rtake, List.tail_drop]
    congr 1
    omega
  · rw [if_neg (by omega), List.rtake, List.rtake, Nat.sub_eq_zero_of_le (by omega), Nat.sub_eq_zero_of_le (by omega)]

/-- The queue holds the last `n` elements. -/
theorem foldl_push (h : 0 < n) (l : List α) : l.foldl (push n) [] = l.rtake n := by
  induction l using List.reverseRecOn with
  | nil => rw [List.rtake_nil]; rfl
  | append_singleton l x ih => rw [List.foldl_append, ih, List.foldl_cons, List.foldl_nil, push_rtake h]

/-- A queue for no elements never drops one. -/
theorem foldl_push_zero (l : List α) : l.foldl (push 0) [] = l := by
  induction l using List.reverseRecOn with
  | nil => rfl
  | append_singleton l x ih =>
    rw [List.foldl_append, ih, List.foldl_cons, List.foldl_nil, push]
    cases l <;> rfl

end Ring
