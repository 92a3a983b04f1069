import TpnWorker.Concurrent.Registrations
import TpnWorker.Lib.Ring

/-! The registration log has the newest records. The DELETE of one call may remove what another call has inserted only when
    200 newer records are there, and the last statement of all is a DELETE. -/

namespace TpnWorker
open Keyed Transition

/-- What every run keeps: the table is an end of the history, of at least 200 records if there are as many; and it has no
    more than 200 unless a call has yet to trim it or none has started. -/
structure Retained (log : RegistrationLog) (s : RegistrationSys) : Prop where
  sorted : s.history.Pairwise fun r r' => r.id < r'.id
  window : ∃ n, 200 ≤ n ∧ s.log.rows = s.history.rtake n
  settled : s.log.rows = s.history.rtake 200 ∨ (∃ call, s.calls call = some .trimming) ∨
    s.history = log.rows ∧ ∀ call, s.calls call = none

namespace Retained
variable {log : RegistrationLog} {s t : RegistrationSys} {a : RegistrationAct}

theorem start (log : RegistrationLog) : Retained log (.start log) := by
  refine ⟨log.table.sorted, ⟨max 200 log.rows.length, le_max_left _ _, ?_⟩, Or.inr (Or.inr ⟨rfl, fun _ => rfl⟩)⟩
  exact (Ring.rtake_eq_self (le_max_right _ _)).symm

/-- The next id is behind the whole history: the last record of it is in the table. -/
theorem lt_nextId (R : Retained log s) {r : Registration} (hr : r ∈ s.history) : r.id < s.log.nextId := by
  obtain ⟨n, hn, hrows⟩ := R.window
  have hsorted := R.sorted
  cases hlast : s.history using List.reverseRecOn with
  | nil =>
    rw [hlast] at hr
    cases hr
  | append_singleton init last =>
    obtain ⟨m, rfl⟩ : ∃ m, n = m + 1 := ⟨n - 1, by omega⟩
    rw [hlast, List.rtake_concat_succ] at hrows
    rw [hlast] at hr hsorted
    have hmem : last ∈ s.log.rows := hrows ▸ List.mem_append_right _ (List.mem_singleton_self _)
    have hnext := RegistrationLog.lt_nextId hmem
    rcases List.mem_append.mp hr with hr | hr
    · exact ((List.pairwise_append.mp hsorted).2.2 r hr last (List.mem_singleton_self _)).trans hnext
    · rwa [List.mem_singleton.mp hr]

theorem step (R : Retained log s) (hsucceeds : a.Succeeds s) (h : s.step a = some t) : Retained log t := by
  obtain ⟨n, hn, hrows⟩ := R.window
  cases a with
  | insert call attempt inserted =>
    cases hsucceeds
    obtain ⟨-, rfl⟩ := RegistrationStep.insert_inv h
    refine ⟨?_, ⟨n + 1, by omega, ?_⟩, Or.inr (Or.inl ⟨call, Function.update_self ..⟩)⟩
    · refine List.pairwise_append.mpr ⟨R.sorted, List.pairwise_singleton _ _, fun r hr r' hr' => ?_⟩
      rw [List.mem_singleton.mp hr']
      exact R.lt_nextId hr
    · rw [RegistrationLog.rows_insert, hrows, List.rtake_concat_succ]
  | trim call trimmed =>
    cases hsucceeds
    obtain ⟨-, rfl⟩ := RegistrationStep.trim_inv h
    have htrim : s.log.trim.rows = s.history.rtake 200 := by
      rw [RegistrationLog.rows_trim, hrows, Ring.rtake_rtake hn]
    exact ⟨R.sorted, ⟨200, le_rfl, htrim⟩, Or.inl htrim⟩

theorem of_reach (hr : Reach RegistrationSys.step RegistrationAct.Succeeds (.start log) s) : Retained log s :=
  hr.inv (start log) fun _ _ _ R hc h => R.step hc h

end Retained

/-- In every run the newest 200 records are in the table. Once the calls have finished, the table has no others, if a call
    was made or the table had at most 200 to begin with; and an answer has the newest of them, newest first. -/
theorem newest_registrations_kept {log : RegistrationLog} {s : RegistrationSys}
    (hr : Reach RegistrationSys.step RegistrationAct.Succeeds (.start log) s) :
    s.history.Pairwise (fun r r' => r.id < r'.id) ∧ (∀ r ∈ s.history.rtake 200, r ∈ s.log.rows) ∧
      (s.Finished → (∃ call, s.calls call ≠ none) ∨ log.rows.length ≤ 200 → s.log.rows = s.history.rtake 200) ∧
      ∀ limit, 0 ≤ limit →
        recentRegistrations (.ok ()) s.log limit = ((s.log.rows.rtake limit.toNat).map Registration.entry).reverse := by
  have R := Retained.of_reach hr
  refine ⟨R.sorted, fun r hmem => ?_, fun hfinished hcalls => ?_, fun limit hlimit => ?_⟩
  · obtain ⟨n, hn, hrows⟩ := R.window
    rw [hrows]
    rw [← Ring.rtake_rtake hn] at hmem
    exact (List.drop_suffix _ _).mem hmem
  · rcases R.settled with hrows | ⟨call, hcall⟩ | ⟨hhistory, hnone⟩
    · exact hrows
    · cases hfinished call _ hcall
    · rcases hcalls with ⟨call, hcall⟩ | hlength
      · exact absurd (hnone call) hcall
      · obtain ⟨n, hn, hrows⟩ := R.window
        rw [← hhistory] at hlength
        rw [hrows, Ring.rtake_eq_self hlength, Ring.rtake_eq_self (hlength.trans hn)]
  · rw [recentRegistrations, RegistrationLog.newest_eq hlimit, List.map_reverse]

/-- A table with the records 1 to `n`. -/
def RegistrationLog.ofLength (n : ℕ) : RegistrationLog where
  table :=
    { rows := (List.range n).map fun i => ⟨Int.ofNat i + 1, "http://pool.example", 1, 200, "", "", ""⟩
      sorted := List.pairwise_map.mpr (List.pairwise_lt_range.imp fun h => Int.add_lt_add_right (Int.ofNat_lt.mpr h) 1) }
  sequence := n

theorem RegistrationLog.length_ofLength (n : ℕ) : (RegistrationLog.ofLength n).rows.length = n := by
  rw [rows, ofLength, List.length_map, List.length_range]

/-- A table of 201 records keeps them until a call is made. -/
theorem untrimmed_without_call :
    ∃ s, Reach RegistrationSys.step RegistrationAct.Succeeds (.start (.ofLength 201)) s ∧ s.Finished ∧
      s.history.length = 201 ∧ s.log.rows.length = 201 ∧ s.log.rows ≠ s.history.rtake 200 := by
  have hlength : (RegistrationLog.ofLength 201).rows.length = 201 := RegistrationLog.length_ofLength 201
  refine ⟨.start (.ofLength 201), .refl, fun _ _ h => (by cases h), hlength, hlength, fun h => ?_⟩
  have hrows := congrArg List.length h
  rw [Ring.length_rtake, RegistrationSys.start, hlength] at hrows
  cases hrows

/-- Two calls, the second of which inserts before the first one trims. -/
def overlappingCalls : List RegistrationAct :=
  let attempt := fun now => ⟨"http://pool.example", true, 200, "{}", "", now⟩
  [.insert 0 (attempt "10:00") (.ok ()), .insert 1 (attempt "10:01") (.ok ()), .trim 1 (.ok ()), .trim 0 (.ok ())]

theorem newest_registrations_kept_sample :
    ∃ s, Reach RegistrationSys.step RegistrationAct.Succeeds (.start (.ofLength 1)) s ∧ s.log.rows = s.history.rtake 200 ∧
      (recentRegistrations (.ok ()) s.log 2).map (·.createdAt) = ["10:01", "10:00"] := by
  have hrun : (exec RegistrationSys.step (.start (.ofLength 1)) overlappingCalls).any fun s => decide
      ((s.log.rows.rtake 2).map (·.createdAt) = ["10:00", "10:01"] ∧ s.calls 0 = some .finished ∧
        s.calls 1 = some .finished) := by
    decide +kernel
  have hrest : ∀ k, (exec RegistrationSys.step (.start (.ofLength 1)) overlappingCalls).map (·.calls (k + 2)) = some none :=
    fun _ => rfl
  obtain ⟨s, hs, hfacts⟩ := (Option.any_eq_true _ _).mp hrun
  obtain ⟨hrows, hfirst, hsecond⟩ := of_decide_eq_true hfacts
  simp only [hs, Option.map_some, Option.some.injEq] at hrest
  have hreach : Reach RegistrationSys.step RegistrationAct.Succeeds (.start (.ofLength 1)) s :=
    (Reach.of_exec (E := fun a => ∀ s, a.Succeeds s) (by simp [overlappingCalls, RegistrationAct.Succeeds]) hs).mono
      fun s _ h => h s
  have hfinished : s.Finished := by
    intro call pc hcall
    match call with
    | 0 => exact Option.some.inj (hcall.symm.trans hfirst)
    | 1 => exact Option.some.inj (hcall.symm.trans hsecond)
    | k + 2 => cases hcall.symm.trans (hrest k)
  obtain ⟨-, -, hkept, hrecent⟩ := newest_registrations_kept hreach
  refine ⟨s, hreach, hkept hfinished (Or.inr (by decide)), ?_⟩
  have hentries : (recentRegistrations (.ok ()) s.log 2).map (·.createdAt) =
      ((s.log.rows.rtake 2).map (·.createdAt)).reverse := by
    rw [hrecent 2 (by decide), List.map_reverse, List.map_map]
    rfl
  rw [hentries, hrows]
  rfl

end TpnWorker
