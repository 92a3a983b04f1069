import TpnWorker.Lib.Table

/-! The newest row of each value of a column. To keep only these makes the column unique, and changes nothing that the last
    row of a value decides. -/

namespace Keyed.Table
variable {κ ρ γ : Type} [LinearOrder κ] {key : ρ → κ} {t : Table κ ρ key} {col : ρ → γ} {r : ρ} {c : γ}

/-- No row with the same value has a greater key. -/
def IsNewest (t : Table κ ρ key) (col : ρ → γ) (r : ρ) : Prop := ∀ r' ∈ t.rows, col r' = col r → key r' ≤ key r

theorem isNewest_of_nodup (h : (t.rows.map col).Nodup) (hr : r ∈ t.rows) : t.IsNewest col r := by
  intro r' hr' heq
  rw [List.inj_on_of_nodup_map h hr' hr heq]

variable [DecidableEq γ]

instance : Decidable (t.IsNewest col r) := inferInstanceAs (Decidable (∀ r' ∈ t.rows, _ → _))

/-- The table without the rows that have a newer one. -/
def keepNewest (t : Table κ ρ key) (col : ρ → γ) : Table κ ρ key := t.deleteWhere fun r => !decide (t.IsNewest col r)

theorem mem_keepNewest : r ∈ (t.keepNewest col).rows ↔ r ∈ t.rows ∧ t.IsNewest col r := by
  simp [keepNewest, deleteWhere]

/-- The newest rows have different values. -/
theorem nodup_keepNewest : ((t.keepNewest col).rows.map col).Nodup := by
  refine List.pairwise_map.mpr ((t.keepNewest col).sorted.imp_of_mem fun {r r'} hr hr' hlt heq => ?_)
  obtain ⟨hmem, -⟩ := mem_keepNewest.mp hr'
  exact hlt.not_ge ((mem_keepNewest.mp hr).2 r' hmem heq.symm)

/-- Where the column is unique already, nothing is deleted. -/
theorem keepNewest_of_nodup (h : (t.rows.map col).Nodup) : t.keepNewest col = t := by
  refine Table.ext (List.filter_eq_self.mpr fun r hr => ?_)
  simpa using isNewest_of_nodup h hr

/-- The last row of a value is a newest one. -/
theorem find?_reverse_keepNewest :
    (t.keepNewest col).rows.reverse.find? (fun r => decide (col r = c)) = t.rows.reverse.find? fun r => decide (col r = c) := by
  have hsorted := t.sorted
  rw [← List.pairwise_reverse] at hsorted
  rw [keepNewest, deleteWhere, ← List.filter_reverse, List.find?_filter]
  cases hfind : t.rows.reverse.find? fun r => decide (col r = c) with
  | none =>
    rw [List.find?_eq_none] at hfind ⊢
    exact fun r hr h => hfind r hr (of_decide_eq_true h).2
  | some r =>
    obtain ⟨hcol, before, after, hrows, hbefore⟩ := List.find?_eq_some_iff_append.mp hfind
    refine List.find?_eq_some_iff_append.mpr ⟨?_, before, after, hrows, fun r' hr' => ?_⟩
    · have hnewest : t.IsNewest col r := by
        intro r' hr' heq
        rw [← List.mem_reverse, hrows, List.mem_append, List.mem_cons] at hr'
        rw [hrows] at hsorted
        rcases hr' with hr' | rfl | hr'
        · have hother := hbefore r' hr'
          rw [heq, hcol] at hother
          cases hother
        · exact le_rfl
        · exact ((List.pairwise_cons.mp (List.pairwise_append.mp hsorted).2.1).1 r' hr').le
      simpa [hnewest] using hcol
    · have hother := hbefore r' hr'
      rw [Bool.not_eq_true'] at hother ⊢
      exact decide_eq_false fun h => Bool.false_ne_true (hother.symm.trans h.2)

end Keyed.Table
