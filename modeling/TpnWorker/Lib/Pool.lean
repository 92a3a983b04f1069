import Mathlib.Algebra.Order.Ring.Int
import Mathlib.Data.List.Chain
import Mathlib.Tactic.Linarith

/-! Leases of one length that are taken out of a pool at spaced times. Of the leases that were taken so only as many are live
    at any moment as fit into the length of one, so a pool with that much room never runs out. -/

namespace Pool

section Spacing
variable {d lo : Int} {n : ℕ} {l : List Int}

/-- In a falling list with gaps of at least `d`, at most `n` entries lie in a window of a length below `n * d`. -/
theorem countP_le_of_isChain (hi : Int) (hd : 0 ≤ d) (h : l.IsChain fun a b => b + d ≤ a) (hhead : ∀ a ∈ l.head?, a ≤ hi)
    (hhi : hi < lo + n * d) : (l.countP fun a => decide (lo ≤ a)) ≤ n := by
  induction l generalizing hi n with
  | nil => exact Nat.zero_le n
  | cons a l ih =>
    have ha : a ≤ hi := hhead a rfl
    have htail : ∀ b ∈ l.head?, b ≤ hi - d := fun b hb => by
      have := (List.isChain_cons.mp h).1 b hb
      omega
    have hchain := (List.isChain_cons.mp h).2
    rw [List.countP_cons]
    cases n with
    | zero =>
      have hnone := ih (n := 0) _ hchain htail (by simp only [Nat.cast_zero, zero_mul] at hhi ⊢; omega)
      have hout : ¬lo ≤ a := by
        simp only [Nat.cast_zero, zero_mul] at hhi
        omega
      simpa [hout] using hnone
    | succ n =>
      have hrest := ih (n := n) _ hchain htail (by push_cast at hhi; linarith)
      split <;> omega

end Spacing

/-- A pool of which `base` is taken for good, with the expiries of the leases since, the last one first: `load` at a time is
    what is taken then, and the next lease is taken at `next` or later. -/
structure Serves (load : Int → ℕ) (base : ℕ) (length d next : Int) (expiries : List Int) : Prop where
  bound : ∀ later, next ≤ later → load later ≤ base + expiries.countP fun e => decide (later ≤ e)
  chain : expiries.IsChain fun a b => b + d ≤ a
  newest : ∀ e ∈ expiries.head?, e + d ≤ next + length

namespace Serves
variable {load load' : Int → ℕ} {base m : ℕ} {length d next next' now time : Int} {expiries : List Int}

theorem start (h : ∀ later, next ≤ later → load later ≤ base) : Serves load base length d next [] where
  bound later hlater := h later hlater
  chain := .nil
  newest _ h := by cases h

/-- There is room for the next lease. -/
theorem room (H : Serves load base length d next expiries) (hd : 0 ≤ d) (hlength : 0 ≤ length) (hm : length < m * d)
    (hnow : next ≤ now) : load now < base + m := by
  cases m with
  | zero =>
    simp only [Nat.cast_zero, zero_mul] at hm
    omega
  | succ n =>
    have hlive : (expiries.countP fun e => decide (now ≤ e)) ≤ n := by
      refine countP_le_of_isChain (next + length - d) hd H.chain (fun e he => ?_) ?_
      · have := H.newest e he
        omega
      · push_cast at hm
        linarith
    have := H.bound now hnow
    omega

/-- A lease at `now`, of which the expiry is computed from `time`. -/
theorem lease (H : Serves load base length d next expiries) (htime : next ≤ time) (hnext : time + d ≤ next')
    (hnow : now ≤ next') (hle : next ≤ now)
    (hload : ∀ later, now ≤ later → load' later ≤ load later + if later ≤ time + length then 1 else 0) :
    Serves load' base length d next' ((time + length) :: expiries) where
  bound later hlater := by
    have hgrown := hload later (by omega)
    have hbound := H.bound later (by omega)
    rw [List.countP_cons]
    simp only [decide_eq_true_eq]
    omega
  chain := List.isChain_cons.mpr ⟨fun e he => by have := H.newest e he; omega, H.chain⟩
  newest e he := by
    cases he
    omega

end Serves

end Pool
