import TpnWorker.Concurrent.EnvFile

/-! Concurrent updates of the `.env` file. Each call writes back what it read with one variable changed, so of two calls
    that read the same content the one that writes first is lost. -/

namespace TpnWorker
open Transition

/-- The file has what both calls wrote, and the other variables as before. -/
def BothKept (req : Bool → EnvUpdate) (content file : String) : Prop :=
  (∀ c, readEnv file (req c).key = some (req c).seen) ∧
    ∀ key, (∀ c, key ≠ (req c).key) → readEnv file key = readEnv content key

/-- One call runs after the other has returned. -/
def OneByOne (acts : List EnvAct) : Prop := ∃ c, acts = [.read c, .write c, .read (!c), .write (!c)]

section Updates
variable {req : Bool → EnvUpdate} {content : String} {acts : List EnvAct} {s : EnvSys} {c : Bool}

theorem ne_other (hkeys : (req true).key ≠ (req false).key) : (req c).key ≠ (req (!c)).key := by
  cases c with
  | false => exact hkeys.symm
  | true => exact hkeys

/-- A call that writes on top of the other one's file keeps both values. -/
theorem bothKept_sequential (hkeys : (req true).key ≠ (req false).key) :
    BothKept req content (EnvUpdate.written (EnvUpdate.written content (req c)) (req (!c))) := by
  refine ⟨fun d => ?_, fun key hother => ?_⟩
  · obtain rfl | rfl := Bool.eq_or_eq_not d c
    · rw [readEnv_written_of_ne (ne_other hkeys), readEnv_written_self]
    · exact readEnv_written_self
  · rw [readEnv_written_of_ne (hother _), readEnv_written_of_ne (hother c)]

/-- A call that writes on top of the first content keeps the other one's value only if it was there. -/
theorem bothKept_overwritten (hkeys : (req true).key ≠ (req false).key) :
    BothKept req content (EnvUpdate.written content (req (!c))) ↔ readEnv content (req c).key = some (req c).seen := by
  have hlost : readEnv (EnvUpdate.written content (req (!c))) (req c).key = readEnv content (req c).key :=
    readEnv_written_of_ne (ne_other hkeys)
  constructor
  · exact fun hkept => hlost.symm.trans (hkept.1 c)
  · refine fun hsame => ⟨fun d => ?_, fun key hother => readEnv_written_of_ne (hother _)⟩
    obtain rfl | rfl := Bool.eq_or_eq_not d c
    · exact hlost.trans hsame
    · exact readEnv_written_self

/-- Two calls that succeed with different variables are both kept exactly if one ran after the other had returned, or
    the file held the value of the one that wrote first from the start. -/
theorem env_updates_kept_iff (hkeys : (req true).key ≠ (req false).key)
    (h : exec (EnvSys.step req) (.start content) acts = some s) (hdone : ∀ c, s.calls c = .written) :
    BothKept req content s.file ↔
      OneByOne acts ∨ ∃ c, [.write c, .write (!c)] <:+ acts ∧ readEnv content (req c).key = some (req c).seen := by
  obtain ⟨c, ⟨rfl, hfile⟩ | ⟨d, rfl, hfile⟩⟩ := EnvSys.exec_start h hdone
  · exact iff_of_true (hfile ▸ bothKept_sequential hkeys) (Or.inl ⟨c, rfl⟩)
  · rw [hfile, bothKept_overwritten hkeys]
    constructor
    · exact fun hsame => Or.inr ⟨d, ⟨[.read c, .read (!c)], rfl⟩, hsame⟩
    · rintro (⟨e, he⟩ | ⟨e, he, hsame⟩)
      · cases he
      · have hlast := List.suffix_iff_eq_drop.mp he
        simp only [List.length_cons, List.length_nil, List.drop_succ_cons, List.drop_zero] at hlast
        cases hlast
        exact hsame

/-- A new pool address and a new password. -/
def poolAndPassword : Bool → EnvUpdate
  | true => ⟨.miningPoolUrl, "https://pool.example", by decide⟩
  | false => ⟨.loginPassword, "secret", by decide⟩

def sampleEnv : String := "MINING_POOL_URL=https://old.example\n# LOGIN_PASSWORD=\n"

/-- Both calls read, and the one that sets the password writes last. -/
theorem env_update_lost :
    ∃ s, exec (EnvSys.step poolAndPassword) (.start sampleEnv) [.read true, .read false, .write true, .write false] =
        some s ∧ (∀ c, s.calls c = .written) ∧ readEnv s.file .miningPoolUrl = some "https://old.example" ∧
      ¬BothKept poolAndPassword sampleEnv s.file := by
  have hrun : (exec (EnvSys.step poolAndPassword) (.start sampleEnv)
      [.read true, .read false, .write true, .write false]).any fun s => decide
        ((∀ c, s.calls c = .written) ∧ readEnv s.file .miningPoolUrl = some "https://old.example") := by
    decide +kernel
  obtain ⟨s, hs, hfacts⟩ := (Option.any_eq_true _ _).mp hrun
  obtain ⟨hdone, hold⟩ := of_decide_eq_true hfacts
  refine ⟨s, hs, hdone, hold, fun hkept => ?_⟩
  have hnew := (hkept.1 true).symm.trans hold
  exact absurd hnew (by decide +kernel)

/-- The two calls one after the other. -/
theorem env_updates_kept_iff_sample :
    ∃ s, exec (EnvSys.step poolAndPassword) (.start sampleEnv) [.read true, .write true, .read false, .write false] = some s ∧
      (∀ c, s.calls c = .written) ∧ BothKept poolAndPassword sampleEnv s.file := by
  have hrun : (exec (EnvSys.step poolAndPassword) (.start sampleEnv)
      [.read true, .write true, .read false, .write false]).any fun s => decide (∀ c, s.calls c = .written) := by
    decide +kernel
  obtain ⟨s, hs, hdone⟩ := (Option.any_eq_true _ _).mp hrun
  replace hdone := of_decide_eq_true hdone
  exact ⟨s, hs, hdone, (env_updates_kept_iff (by decide) hs hdone).mpr (Or.inl ⟨true, rfl⟩)⟩

end Updates

end TpnWorker
