import Mathlib.Logic.Function.Basic
import TpnWorker.Db.RegistrationLog
import TpnWorker.Lib.Transition

/-! Concurrent calls of `insert_registration`. A call executes the INSERT and then the DELETE, and the statements of other
    calls may come in between. A history variable has every record that was inserted; no step reads it. -/

namespace TpnWorker
open Keyed Transition

/-- Where a call stands, by what it does next. -/
inductive RegistrationPc where
  | trimming
  | finished
deriving DecidableEq

structure RegistrationSys where
  log : RegistrationLog
  calls : ℕ → Option RegistrationPc
  history : List Registration

inductive RegistrationAct where
  | insert (call : ℕ) (a : RegistrationAttempt) (inserted : Except String Unit)
  | trim (call : ℕ) (trimmed : Except String Unit)

namespace RegistrationSys

/-- No call has started, and the table has these records. -/
def start (log : RegistrationLog) : RegistrationSys := ⟨log, fun _ => none, log.rows⟩

def goto (s : RegistrationSys) (call : ℕ) (pc : RegistrationPc) : RegistrationSys :=
  { s with calls := Function.update s.calls call (some pc) }

/-- One statement of a call. -/
def step (s : RegistrationSys) : RegistrationAct → Option RegistrationSys
  | .insert call a inserted =>
    match s.calls call with
    | none =>
      match inserted with
      | .ok () =>
        some { s.goto call .trimming with log := s.log.insert a, history := s.history ++ [a.row s.log.nextId] }
      | .error _ => some (s.goto call .trimming)
    | some _ => none
  | .trim call trimmed =>
    match s.calls call with
    | some .trimming =>
      match trimmed with
      | .ok () => some { s.goto call .finished with log := s.log.trim }
      | .error _ => some (s.goto call .finished)
    | _ => none

/-- Every call that has started has finished. -/
def Finished (s : RegistrationSys) : Prop := ∀ call pc, s.calls call = some pc → pc = .finished

end RegistrationSys

/-- The statement succeeds. -/
def RegistrationAct.Succeeds (_ : RegistrationSys) : RegistrationAct → Prop
  | .insert _ _ inserted => inserted = .ok ()
  | .trim _ trimmed => trimmed = .ok ()

namespace RegistrationStep
variable {s t : RegistrationSys} {call : ℕ}

theorem insert_inv {a : RegistrationAttempt} (h : s.step (.insert call a (.ok ())) = some t) :
    s.calls call = none ∧
      t = { s.goto call .trimming with log := s.log.insert a, history := s.history ++ [a.row s.log.nextId] } := by
  simp only [RegistrationSys.step] at h
  split at h
  · next hcall => exact ⟨hcall, (Option.some.inj h).symm⟩
  · cases h

theorem trim_inv (h : s.step (.trim call (.ok ())) = some t) :
    s.calls call = some .trimming ∧ t = { s.goto call .finished with log := s.log.trim } := by
  simp only [RegistrationSys.step] at h
  split at h
  · next hcall => exact ⟨hcall, (Option.some.inj h).symm⟩
  · cases h

end RegistrationStep

/-- A call whose statements follow each other does what the function does. -/
theorem exec_insertRegistration {s : RegistrationSys} {call : ℕ} (a : RegistrationAttempt)
    (inserted trimmed : Except String Unit) (hcall : s.calls call = none) :
    (exec RegistrationSys.step s [.insert call a inserted, .trim call trimmed]).map (·.log) =
      some (insertRegistration inserted trimmed s.log a) := by
  cases inserted <;> cases trimmed <;>
    simp [exec, RegistrationSys.step, RegistrationSys.goto, insertRegistration, hcall]

end TpnWorker
