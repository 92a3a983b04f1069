import Mathlib.Data.Bool.Basic
import Mathlib.Logic.Function.Basic
import TpnWorker.Api.Admin
import TpnWorker.Lib.Transition

/-! Two concurrent calls of `update_env_value`. A call reads the whole file and later writes it again, and nothing
    keeps the other call from writing in between. -/

namespace TpnWorker
open Transition

/-- Where a call stands, by what it does next. -/
inductive EnvPc where
  | reading
  | writing (content : String)
  | written
  | failed (error : String)
deriving DecidableEq

structure EnvSys where
  file : String
  calls : Bool → EnvPc

/-- One of the two calls reads the file or writes it. A write that fails may leave anything behind. -/
inductive EnvAct where
  | read (call : Bool)
  | readError (call : Bool) (error : String)
  | write (call : Bool)
  | writeError (call : Bool) (error left : String)
deriving DecidableEq

namespace EnvSys

def start (content : String) : EnvSys := ⟨content, fun _ => .reading⟩

/-- A call moves on. -/
def goto (s : EnvSys) (call : Bool) (pc : EnvPc) : EnvSys := { s with calls := Function.update s.calls call pc }

/-- One step of the calls with these arguments. -/
def step (req : Bool → EnvUpdate) (s : EnvSys) : EnvAct → Option EnvSys
  | .read call =>
    match s.calls call with
    | .reading => some (s.goto call (.writing s.file))
    | _ => none
  | .readError call error =>
    match s.calls call with
    | .reading => some (s.goto call (.failed error))
    | _ => none
  | .write call =>
    match s.calls call with
    | .writing content => some { s.goto call .written with file := EnvUpdate.written content (req call) }
    | _ => none
  | .writeError call error left =>
    match s.calls call with
    | .writing _ => some { s.goto call (.failed error) with file := left }
    | _ => none

@[simp] theorem goto_self (s : EnvSys) (call : Bool) (pc : EnvPc) : (s.goto call pc).calls call = pc :=
  Function.update_self ..

@[simp] theorem goto_other (s : EnvSys) (call : Bool) (pc : EnvPc) : (s.goto call pc).calls (!call) = s.calls (!call) :=
  Function.update_of_ne (by simp) _ _

@[simp] theorem goto_file (s : EnvSys) (call : Bool) (pc : EnvPc) : (s.goto call pc).file = s.file := rfl

section Runs
variable {req : Bool → EnvUpdate} {s t : EnvSys} {a : EnvAct} {acts : List EnvAct} {c : Bool} {content content' : String}

theorem step_cases (h : s.step req a = some t) :
    (∃ c, a = .read c ∧ s.calls c = .reading ∧ t = s.goto c (.writing s.file)) ∨
      (∃ c content, a = .write c ∧ s.calls c = .writing content ∧
        t = { s.goto c .written with file := EnvUpdate.written content (req c) }) ∨
      ∃ c error, t.calls c = .failed error := by
  cases a with
  | read call =>
    simp only [step] at h
    split at h
    · next hc => exact Or.inl ⟨call, rfl, hc, (Option.some.inj h).symm⟩
    · cases h
  | readError call error =>
    simp only [step] at h
    split at h
    · cases h
      exact Or.inr (Or.inr ⟨call, error, goto_self ..⟩)
    · cases h
  | write call =>
    simp only [step] at h
    split at h
    · next content hc => exact Or.inr (Or.inl ⟨call, content, rfl, hc, (Option.some.inj h).symm⟩)
    · cases h
  | writeError call error left =>
    simp only [step] at h
    split at h
    · cases h
      exact Or.inr (Or.inr ⟨call, error, goto_self ..⟩)
    · cases h

theorem step_failed {error : String} (h : s.step req a = some t) (hc : s.calls c = .failed error) :
    t.calls c = .failed error := by
  have hkeep : ∀ call pc, s.calls call ≠ .failed error → (s.goto call pc).calls c = .failed error := by
    intro call pc hne
    have hcall : c ≠ call := fun heq => hne (heq ▸ hc)
    exact (Function.update_of_ne hcall _ s.calls).trans hc
  cases a with
  | read call | readError call | write call | writeError call =>
    simp only [step] at h
    split at h
    · next hcall =>
      cases h
      exact hkeep call _ (by rw [hcall]; exact fun h => by cases h)
    · cases h

theorem exec_failed {error : String} (h : exec (step req) s acts = some t) (hc : s.calls c = .failed error) :
    t.calls c = .failed error := by
  induction acts generalizing s with
  | nil =>
    cases h
    exact hc
  | cons a acts ih =>
    obtain ⟨u, hu, h⟩ := Option.bind_eq_some_iff.mp h
    exact ih h (step_failed hu hc)

theorem next (h : exec (step req) s acts = some t) (hdone : ∀ c, t.calls c = .written) :
    (acts = [] ∧ s = t) ∨ ∃ rest u, exec (step req) u rest = some t ∧
      ((∃ c, acts = .read c :: rest ∧ s.calls c = .reading ∧ u = s.goto c (.writing s.file)) ∨
        ∃ c content, acts = .write c :: rest ∧ s.calls c = .writing content ∧
          u = { s.goto c .written with file := EnvUpdate.written content (req c) }) := by
  cases acts with
  | nil => exact Or.inl ⟨rfl, Option.some.inj h⟩
  | cons a rest =>
    obtain ⟨u, hu, h⟩ := Option.bind_eq_some_iff.mp h
    refine Or.inr ⟨rest, u, h, ?_⟩
    rcases step_cases hu with ⟨c, rfl, hc, rfl⟩ | ⟨c, content, rfl, hc, rfl⟩ | ⟨c, error, hc⟩
    · exact Or.inl ⟨c, rfl, hc, rfl⟩
    · exact Or.inr ⟨c, content, rfl, hc, rfl⟩
    · cases (exec_failed h hc).symm.trans (hdone c)

theorem exec_written (h : exec (step req) s acts = some t) (hdone : ∀ c, t.calls c = .written) (hc : s.calls c = .written)
    (ho : s.calls (!c) = .written) : acts = [] ∧ s = t := by
  rcases next h hdone with hend | ⟨rest, u, -, ⟨d, -, hd, -⟩ | ⟨d, _, -, hd, -⟩⟩
  · exact hend
  all_goals obtain rfl | rfl := Bool.eq_or_eq_not d c <;> simp_all

theorem exec_write (h : exec (step req) s acts = some t) (hdone : ∀ c, t.calls c = .written)
    (hc : s.calls c = .writing content) (ho : s.calls (!c) = .written) :
    acts = [.write c] ∧ t.file = EnvUpdate.written content (req c) := by
  rcases next h hdone with ⟨-, rfl⟩ | ⟨rest, u, hrest, ⟨d, -, hd, -⟩ | ⟨d, _, rfl, hd, rfl⟩⟩
  · cases hc.symm.trans (hdone c)
  · obtain rfl | rfl := Bool.eq_or_eq_not d c
    · cases hc.symm.trans hd
    · cases ho.symm.trans hd
  · obtain rfl | rfl := Bool.eq_or_eq_not d c
    · cases hc.symm.trans hd
      obtain ⟨rfl, rfl⟩ := exec_written (c := d) hrest hdone (goto_self ..) ((goto_other ..).trans ho)
      exact ⟨rfl, rfl⟩
    · cases ho.symm.trans hd

theorem exec_read_write (h : exec (step req) s acts = some t) (hdone : ∀ c, t.calls c = .written)
    (hc : s.calls c = .reading) (ho : s.calls (!c) = .written) :
    acts = [.read c, .write c] ∧ t.file = EnvUpdate.written s.file (req c) := by
  rcases next h hdone with ⟨-, rfl⟩ | ⟨rest, u, hrest, ⟨d, rfl, hd, rfl⟩ | ⟨d, _, -, hd, -⟩⟩
  · cases hc.symm.trans (hdone c)
  · obtain rfl | rfl := Bool.eq_or_eq_not d c
    · obtain ⟨rfl, hfile⟩ := exec_write (c := d) hrest hdone (goto_self ..) ((goto_other ..).trans ho)
      exact ⟨rfl, hfile⟩
    · cases ho.symm.trans hd
  · obtain rfl | rfl := Bool.eq_or_eq_not d c
    · cases hc.symm.trans hd
    · cases ho.symm.trans hd

theorem exec_write_write (h : exec (step req) s acts = some t) (hdone : ∀ c, t.calls c = .written)
    (hc : s.calls c = .writing content) (ho : s.calls (!c) = .writing content) :
    ∃ d, acts = [.write d, .write (!d)] ∧ t.file = EnvUpdate.written content (req (!d)) := by
  rcases next h hdone with ⟨-, rfl⟩ | ⟨rest, u, hrest, ⟨d, -, hd, -⟩ | ⟨d, content', rfl, hd, rfl⟩⟩
  · cases hc.symm.trans (hdone c)
  · obtain rfl | rfl := Bool.eq_or_eq_not d c
    · cases hc.symm.trans hd
    · cases ho.symm.trans hd
  · have hother : s.calls (!d) = .writing content := by
      obtain rfl | rfl := Bool.eq_or_eq_not d c
      · exact ho
      · rwa [Bool.not_not]
    obtain ⟨rfl, hfile⟩ := exec_write (c := !d) hrest hdone ((goto_other ..).trans hother)
      (by rw [Bool.not_not]; exact goto_self ..)
    exact ⟨d, rfl, hfile⟩

theorem exec_writing (h : exec (step req) s acts = some t) (hdone : ∀ c, t.calls c = .written)
    (hc : s.calls c = .writing s.file) (ho : s.calls (!c) = .reading) :
    (acts = [.write c, .read (!c), .write (!c)] ∧
        t.file = EnvUpdate.written (EnvUpdate.written s.file (req c)) (req (!c))) ∨
      ∃ d, acts = [.read (!c), .write d, .write (!d)] ∧ t.file = EnvUpdate.written s.file (req (!d)) := by
  rcases next h hdone with ⟨-, rfl⟩ | ⟨rest, u, hrest, ⟨d, rfl, hd, rfl⟩ | ⟨d, _, rfl, hd, rfl⟩⟩
  · cases hc.symm.trans (hdone c)
  · obtain rfl | rfl := Bool.eq_or_eq_not d c
    · cases hc.symm.trans hd
    · have hkept : (s.goto (!c) (.writing s.file)).calls c = .writing s.file := by
        have hother := goto_other s (!c) (.writing s.file)
        rw [Bool.not_not] at hother
        exact hother.trans hc
      obtain ⟨d, rfl, hfile⟩ := exec_write_write hrest hdone hkept (goto_self ..)
      exact Or.inr ⟨d, rfl, hfile⟩
  · obtain rfl | rfl := Bool.eq_or_eq_not d c
    · cases hc.symm.trans hd
      obtain ⟨rfl, hfile⟩ := exec_read_write (c := !d) hrest hdone ((goto_other ..).trans ho)
        (by rw [Bool.not_not]; exact goto_self ..)
      exact Or.inl ⟨rfl, hfile⟩
    · cases ho.symm.trans hd

/-- A run in which both calls succeed: one after the other, or both from the content at the start. -/
theorem exec_start (h : exec (step req) (.start content) acts = some t) (hdone : ∀ c, t.calls c = .written) :
    ∃ c, (acts = [.read c, .write c, .read (!c), .write (!c)] ∧
        t.file = EnvUpdate.written (EnvUpdate.written content (req c)) (req (!c))) ∨
      ∃ d, acts = [.read c, .read (!c), .write d, .write (!d)] ∧ t.file = EnvUpdate.written content (req (!d)) := by
  rcases next h hdone with ⟨-, rfl⟩ | ⟨rest, u, hrest, ⟨c, rfl, -, rfl⟩ | ⟨c, _, -, hc, -⟩⟩
  · cases hdone true
  · refine ⟨c, ?_⟩
    rcases exec_writing (c := c) hrest hdone (goto_self ..) (goto_other ..) with ⟨rfl, hfile⟩ | ⟨d, rfl, hfile⟩
    · exact Or.inl ⟨rfl, hfile⟩
    · exact Or.inr ⟨d, rfl, hfile⟩
  · cases hc

end Runs

end EnvSys

end TpnWorker
