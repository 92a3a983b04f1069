import Mathlib.Data.Option.Basic

/-! Runs of a transition system whose step is a partial function of a state and an action: executing a
    list of actions, the states reached by steps that all meet a condition, and the rule that carries
    an invariant over a run. Two actions of a trace stand in an order if the list of the two is a sublist of it. -/

namespace Transition

variable {σ α : Type} {step : σ → α → Option σ} {C D : σ → α → Prop} {s t u : σ}

/-- The state after the actions, if each of them is enabled in turn. -/
def exec (step : σ → α → Option σ) : σ → List α → Option σ
  | s, [] => some s
  | s, a :: as => (step s a).bind fun t => exec step t as

/-- The state after the actions, if each of them is enabled in turn and meets `C`. -/
def execWhen (step : σ → α → Option σ) (C : σ → α → Prop) [∀ s a, Decidable (C s a)] : σ → List α → Option σ
  | s, [] => some s
  | s, a :: as => if C s a then (step s a).bind fun t => execWhen step C t as else none

/-- The states reached from `s` by steps that each meet `C` in the state before them. -/
inductive Reach (step : σ → α → Option σ) (C : σ → α → Prop) (s : σ) : σ → Prop
  | refl : Reach step C s s
  | step {t u : σ} (a : α) : Reach step C s t → C t a → step t a = some u → Reach step C s u

namespace Reach

theorem single (a : α) (hc : C s a) (h : step s a = some t) : Reach step C s t := refl.step a hc h

theorem trans (h₁ : Reach step C s t) (h₂ : Reach step C t u) : Reach step C s u := by
  induction h₂ with
  | refl => exact h₁
  | step a _ hc hs ih => exact ih.step a hc hs

theorem mono (hCD : ∀ t a, C t a → D t a) (h : Reach step C s t) : Reach step D s t := by
  induction h with
  | refl => exact refl
  | step a _ hc hs ih => exact ih.step a (hCD _ a hc) hs

/-- The invariant rule: what holds at the start and is kept by every step that meets the condition
    holds in every state reached. -/
theorem inv {I : σ → Prop} (start : I s) (keep : ∀ t a u, I t → C t a → step t a = some u → I u)
    (h : Reach step C s t) : I t := by
  induction h with
  | refl => exact start
  | step a _ hc hs ih => exact keep _ a _ ih hc hs

/-- The invariant rule with the state before the step known to be reached. -/
theorem inv_of_reached {I : σ → Prop} (start : I s)
    (keep : ∀ t a u, Reach step C s t → I t → C t a → step t a = some u → I u) (h : Reach step C s t) : I t := by
  induction h with
  | refl => exact start
  | step a hr hc hs ih => exact keep _ a _ hr ih hc hs

theorem of_exec {E : α → Prop} {as : List α} (hE : ∀ a ∈ as, E a) (h : exec step s as = some t) :
    Reach step (fun _ a => E a) s t := by
  induction as generalizing s with
  | nil =>
    cases h
    exact refl
  | cons a as ih =>
    obtain ⟨u, hu, h⟩ := Option.bind_eq_some_iff.mp h
    have hrest := ih (fun a ha => hE a (List.mem_cons_of_mem _ ha)) h
    exact (single a (hE a List.mem_cons_self) hu).trans hrest

theorem of_exec_map {β : Type} {E : α → Prop} (f : β → α) (bs : List β) (hE : ∀ b ∈ bs, E (f b))
    (h : exec step s (bs.map f) = some t) : Reach step (fun _ a => E a) s t := by
  refine of_exec (fun a ha => ?_) h
  obtain ⟨b, hb, rfl⟩ := List.mem_map.mp ha
  exact hE b hb

theorem of_execWhen_and {E : α → Prop} [∀ s a, Decidable (C s a)] {as : List α} (hE : ∀ a ∈ as, E a)
    (h : execWhen step C s as = some t) : Reach step (fun s a => E a ∧ C s a) s t := by
  induction as generalizing s with
  | nil =>
    cases h
    exact refl
  | cons a as ih =>
    simp only [execWhen] at h
    split at h
    · next hc =>
      obtain ⟨u, hu, h⟩ := Option.bind_eq_some_iff.mp h
      have hrest := ih (fun a ha => hE a (List.mem_cons_of_mem _ ha)) h
      exact (single a ⟨hE a List.mem_cons_self, hc⟩ hu).trans hrest
    · cases h

theorem of_execWhen [∀ s a, Decidable (C s a)] {as : List α} (h : execWhen step C s as = some t) :
    Reach step C s t :=
  (of_execWhen_and (E := fun _ => True) (fun _ _ => trivial) h).mono fun _ _ hc => hc.2

end Reach

theorem pair_sublist_concat {a b x : α} {as : List α} :
    [a, b].Sublist (as ++ [x]) ↔ [a, b].Sublist as ∨ a ∈ as ∧ x = b := by
  constructor
  · intro h
    obtain ⟨l₁, l₂, hsplit, h₁, h₂⟩ := List.sublist_append_iff.mp h
    cases h₂ with
    | cons _ hnil =>
      rw [List.sublist_nil.mp hnil, List.append_nil] at hsplit
      exact Or.inl (hsplit ▸ h₁)
    | cons_cons _ hnil =>
      rw [List.sublist_nil.mp hnil, show [a, b] = [a] ++ [b] from rfl] at hsplit
      obtain ⟨rfl, heq⟩ := List.append_inj' hsplit rfl
      exact Or.inr ⟨List.singleton_sublist.mp h₁, (List.singleton_inj.mp heq).symm⟩
  · rintro (h | ⟨ha, rfl⟩)
    · exact h.trans (List.sublist_append_left _ _)
    · exact (List.singleton_sublist.mpr ha).append (List.Sublist.refl [x])

end Transition
