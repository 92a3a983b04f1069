import TpnWorker.Lib.Transition

/-! Simulation of one transition system by another: the rule that carries runs from one to the other, and a plain lock for
    each key, which one client at a time acquires and releases. -/

namespace Transition

variable {σ τ α β : Type} {step : σ → α → Option σ} {step' : τ → β → Option τ} {C : σ → α → Prop} {C' : τ → β → Prop}

/-- The simulation rule: where every step from a reached state is matched by a run between related states, so is every
    run. -/
theorem Reach.simulate {R : σ → τ → Prop} {s : σ} {s' : τ} (start : R s s')
    (match_step : ∀ t a u t', Reach step C s t → R t t' → C t a → step t a = some u → ∃ u', Reach step' C' t' u' ∧ R u u')
    {t : σ} (h : Reach step C s t) : ∃ t', Reach step' C' s' t' ∧ R t t' := by
  induction h with
  | refl => exact ⟨s', .refl, start⟩
  | step a hr hc hs ih =>
    obtain ⟨t', hr', hR⟩ := ih
    obtain ⟨u', hu', hR'⟩ := match_step _ a _ t' hr hR hc hs
    exact ⟨u', hr'.trans hu', hR'⟩

/-- What a client does to the lock of a key. -/
inductive LockOp (κ α : Type) where
  | acquire (key : κ) (client : α)
  | release (key : κ) (client : α)

/-- A plain lock for each key, by the client that holds it: it is acquired when it is free, and released by its holder. -/
def plainLocks {κ α : Type} [DecidableEq κ] [DecidableEq α] (holder : κ → Option α) : LockOp κ α → Option (κ → Option α)
  | .acquire key client =>
    if holder key = none then some (fun k => if k = key then some client else holder k) else none
  | .release key client => if holder key = some client then some (fun k => if k = key then none else holder k) else none

end Transition
