import TpnWorker.Concurrent.Reload

/-! Authentication during a reload. The map is emptied before the rows are inserted one by one, so a pair is rejected
    from the clearing of the map to the insertion of its row. -/

namespace TpnWorker
open Keyed Transition

/-- No statement takes the pair out of the table. -/
def PairStays (u p : String) (_ : CredSys) (a : CredAct) : Prop := ∀ table, a = .commit table → table.Has u p

/-- The pair is authenticated after the reload has cleared the map and before it inserts the row of `u`. -/
def InGap (u p : String) (s : CredSys) (a : CredAct) : Prop :=
  a = .authenticate u p ∧ ∃ config ∈ s.pc.pending, config.username = u

/-- What such runs keep: once the rows that are left are inserted, the map has the pair. -/
structure Reloading (u p : String) (s : CredSys) : Prop where
  table : s.table.Has u p
  clearing : ∀ {configs}, s.pc = .clearing configs → (configs.map (·.username)).Nodup ∧ s.credentials u = some p ∧
    configs.foldl insertCredential (fun _ => none) u = some p
  nodup : (s.pc.pending.map (·.username)).Nodup
  loads : s.pc.pending.foldl insertCredential s.credentials u = some p
  absent : ∀ config ∈ s.pc.pending, config.username = u → s.credentials u = none

namespace Reloading
variable {s t : CredSys} {u p : String} {a : CredAct}

theorem foldl_of_not_mem {configs : List Socks5Config} (h : ∀ config ∈ configs, config.username ≠ u)
    (credentials : Credentials) : configs.foldl insertCredential credentials u = credentials u := by
  induction configs generalizing credentials with
  | nil => rfl
  | cons config rest ih =>
    obtain ⟨hne, hrest⟩ := List.forall_mem_cons.mp h
    rw [List.foldl_cons, ih hrest, insertCredential, Function.update_of_ne hne.symm]

/-- The pair is accepted exactly outside the gap. -/
theorem authenticate_iff (R : Reloading u p s) :
    authenticate s.credentials u p = true ↔ ¬∃ config ∈ s.pc.pending, config.username = u := by
  rw [TpnWorker.authenticate_iff]
  constructor
  · rintro h ⟨config, hmem, hname⟩
    cases h.symm.trans (R.absent config hmem hname)
  · intro hgap
    rw [← foldl_of_not_mem (fun config hmem hname => hgap ⟨config, hmem, hname⟩) s.credentials]
    exact R.loads

theorem remaining {configs : List Socks5Config} {credentials : Credentials} (R : Reloading u p s)
    (hnodup : (configs.map (·.username)).Nodup) (hloads : configs.foldl insertCredential credentials u = some p)
    (habsent : ∀ config ∈ configs, config.username = u → credentials u = none) :
    Reloading u p { s with credentials, pc := .remaining configs } := by
  have hpending : (LoadPc.remaining configs).pending = configs := by cases configs <;> rfl
  refine ⟨R.table, fun h => ?_, ?_, ?_, ?_⟩
  · cases configs <;> cases h
  · exact hpending.symm ▸ hnodup
  · exact hpending.symm ▸ hloads
  · exact hpending.symm ▸ habsent

theorem step (R : Reloading u p s) (hstays : PairStays u p s a) (h : s.step a = some t) : Reloading u p t := by
  cases a with
  | read rows =>
    obtain ⟨hpc, rfl | rfl⟩ := CredStep.read_inv h
    · have hloads := R.loads
      rw [hpc] at hloads
      refine ⟨R.table, fun h => ?_, List.nodup_nil, hloads, fun _ h => by cases h⟩
      cases h
      exact ⟨s.table.unique, hloads, Socks5Table.has_iff.mp R.table⟩
    · exact R
  | clear =>
    obtain ⟨configs, hpc, rfl⟩ := CredStep.clear_inv h
    obtain ⟨hnodup, -, hloads⟩ := R.clearing hpc
    exact R.remaining hnodup hloads fun _ _ _ => rfl
  | insert =>
    obtain ⟨config, rest, hpc, rfl⟩ := CredStep.insert_inv h
    have hnodup := R.nodup
    have hloads := R.loads
    have habsent := R.absent
    rw [hpc] at hnodup hloads habsent
    obtain ⟨hnot, hrest⟩ := List.nodup_cons.mp hnodup
    refine R.remaining hrest hloads fun config' hmem hname => ?_
    have hne : u ≠ config.username := fun heq => hnot (List.mem_map.mpr ⟨config', hmem, hname.trans heq⟩)
    rw [insertCredential, Function.update_of_ne hne]
    exact habsent config' (List.mem_cons_of_mem _ hmem) hname
  | authenticate username password =>
    cases h
    exact { R with }
  | commit table =>
    cases h
    exact { R with table := hstays table rfl }

theorem start {table : Socks5Table} {credentials : Credentials} (hpair : table.Has u p)
    (haccepted : authenticate credentials u p = true) : Reloading u p (.start table credentials) :=
  ⟨hpair, (fun h => by cases h), List.nodup_nil, TpnWorker.authenticate_iff.mp haccepted, fun _ h => by cases h⟩

/-- A step answers the pair, if it does, as the map stands outside the gap. -/
theorem answers_step (R : Reloading u p s) (h : s.step a = some t) :
    (∀ b, (u, p, b) ∈ t.answers → b = true) ↔ (∀ b, (u, p, b) ∈ s.answers → b = true) ∧ ¬InGap u p s a := by
  have hother : t.answers = s.answers → (∀ username password, a ≠ .authenticate username password) →
      ((∀ b, (u, p, b) ∈ t.answers → b = true) ↔ (∀ b, (u, p, b) ∈ s.answers → b = true) ∧ ¬InGap u p s a) := by
    intro hanswers hne
    rw [hanswers, and_iff_left fun hgap => hne u p hgap.1]
  cases a with
  | authenticate username password =>
    cases h
    constructor
    · refine fun hall => ⟨fun b hb => hall b (List.mem_cons_of_mem _ hb), ?_⟩
      rintro ⟨ha, hgap⟩
      rw [CredAct.authenticate.injEq] at ha
      obtain ⟨rfl, rfl⟩ := ha
      exact R.authenticate_iff.mp (hall _ List.mem_cons_self) hgap
    · rintro ⟨hall, hnot⟩ b hb
      rcases List.mem_cons.mp hb with heq | hb
      · obtain ⟨rfl, rfl, rfl⟩ : u = username ∧ p = password ∧ b = _ := by simpa using heq
        exact R.authenticate_iff.mpr fun hgap => hnot ⟨rfl, hgap⟩
      · exact hall b hb
  | read rows => obtain ⟨-, rfl | rfl⟩ := CredStep.read_inv h <;> exact hother rfl (by simp)
  | clear =>
    obtain ⟨configs, -, rfl⟩ := CredStep.clear_inv h
    exact hother rfl (by simp)
  | insert =>
    obtain ⟨config, rest, -, rfl⟩ := CredStep.insert_inv h
    exact hother rfl (by simp)
  | commit table =>
    cases h
    exact hother rfl (by simp)

end Reloading

section Reload
variable {table : Socks5Table} {credentials : Credentials} {s : CredSys} {u p : String}

/-- A pair that stays in the table and was accepted before the reload is accepted by every call of a run exactly if no
    call of the run for that pair falls between the clearing of the map and the insertion of its row. -/
theorem reload_invisible_iff (hpair : table.Has u p) (haccepted : authenticate credentials u p = true)
    (hr : Reach CredSys.step (PairStays u p) (.start table credentials) s) :
    (∀ b, (u, p, b) ∈ s.answers → b = true) ↔
      Reach CredSys.step (fun s a => PairStays u p s a ∧ ¬InGap u p s a) (.start table credentials) s := by
  have hinv : ∀ {C : CredSys → CredAct → Prop} {t}, (∀ s a, C s a → PairStays u p s a) →
      Reach CredSys.step C (.start table credentials) t → Reloading u p t := fun hC hr =>
    hr.inv (Reloading.start hpair haccepted) fun _ _ _ R hc h => R.step (hC _ _ hc) h
  constructor
  · intro hall
    induction hr with
    | refl => exact .refl
    | step a hr hstays h ih =>
      obtain ⟨hall, hnot⟩ := ((hinv (fun _ _ h => h) hr).answers_step h).mp hall
      exact (ih hall).step a ⟨hstays, hnot⟩ h
  · intro hsafe
    exact hsafe.inv_of_reached (fun _ h => by cases h) fun _ _ _ hr hall hc h =>
      ((hinv (fun _ _ hc => hc.1) hr).answers_step h).mpr ⟨hall, hc.2⟩

/-- The user `u_a` of an unchanged table is rejected after the map was cleared. -/
theorem reload_rejects_user :
    ∃ s, Reach CredSys.step (PairStays "u_a" "p_a") (.start .sample (loadFromDb .sample)) s ∧
      Socks5Table.sample.Has "u_a" "p_a" ∧ authenticate (loadFromDb .sample) "u_a" "p_a" = true ∧
      ("u_a", "p_a", false) ∈ s.answers := by
  have hrun : (exec CredSys.step (.start .sample (loadFromDb .sample))
      ((CredAct.reload 2).take 2 ++ [.authenticate "u_a" "p_a"])).any fun s => decide
        (("u_a", "p_a", false) ∈ s.answers) := by
    decide +kernel
  obtain ⟨s, hs, hanswer⟩ := (Option.any_eq_true _ _).mp hrun
  refine ⟨s, (Reach.of_exec (E := fun a => ∀ table, a ≠ .commit table) ?_ hs).mono ?_, ⟨_, List.mem_cons_self, rfl, rfl⟩,
    by decide +kernel, of_decide_eq_true hanswer⟩
  · simp [CredAct.reload]
  · exact fun _ a ha table heq => absurd heq (ha table)

/-- A reload with a call before it and one after it. -/
theorem reload_invisible_iff_sample :
    ∃ s, ("u_b", "p_b", true) ∈ CredSys.answers s ∧ ((∀ b, ("u_b", "p_b", b) ∈ s.answers → b = true) ↔
      Reach CredSys.step (fun s a => PairStays "u_b" "p_b" s a ∧ ¬InGap "u_b" "p_b" s a)
        (.start .sample (loadFromDb .sample)) s) := by
  have hrun : (exec CredSys.step (.start .sample (loadFromDb .sample))
      ([.authenticate "u_b" "p_b"] ++ CredAct.reload 2 ++ [.authenticate "u_b" "p_b"])).any fun s => decide
        (("u_b", "p_b", true) ∈ s.answers) := by
    decide +kernel
  obtain ⟨s, hs, hanswer⟩ := (Option.any_eq_true _ _).mp hrun
  refine ⟨s, of_decide_eq_true hanswer, reload_invisible_iff ⟨_, List.mem_cons_of_mem _ List.mem_cons_self, rfl, rfl⟩
    (by decide +kernel) ((Reach.of_exec (E := fun a => ∀ table, a ≠ .commit table) ?_ hs).mono ?_)⟩
  · simp [CredAct.reload]
  · exact fun _ a ha table heq => absurd heq (ha table)

end Reload

end TpnWorker
