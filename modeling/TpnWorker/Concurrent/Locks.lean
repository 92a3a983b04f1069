import TpnWorker.Lib.Transition
import TpnWorker.Lib.Update
import TpnWorker.Sync.Locks

/-! Concurrent `with_lock` and `is_locked` calls on one manager, with any names, any timeouts and closures that return
    anything. A call can be cancelled wherever it awaits: its future is dropped, and with it the guard it holds. -/

namespace TpnWorker
open FairLock

/-- Where a call stands, by what it does next. The last two belong to `is_locked`. -/
inductive LockPc (α : Type) where
  | looking
  | requesting (mutex : ℕ)
  | waiting (mutex deadline : ℕ)
  | inside (mutex : ℕ)
  | returned (result : Except AppError α)
  | cancelled
  | probing (mutex : ℕ)
  | answered (locked : Bool)

namespace LockPc
variable {α : Type}

/-- The mutex that the call has a pointer to. -/
def mutex? : LockPc α → Option ℕ
  | requesting mutex | waiting mutex _ | inside mutex | probing mutex => some mutex
  | _ => none

/-- The mutex whose client the call is. -/
def client? : LockPc α → Option ℕ
  | waiting mutex _ | inside mutex | probing mutex => some mutex
  | _ => none

/-- The mutex whose guard the call has. -/
def guard? : LockPc α → Option ℕ
  | inside mutex | probing mutex => some mutex
  | _ => none

/-- The closure of the call is under way. -/
def Inside : LockPc α → Prop
  | inside _ => True
  | _ => False

/-- The call waits for its lock. -/
def Waiting : LockPc α → Prop
  | waiting .. => True
  | _ => False

instance (pc : LockPc α) : Decidable pc.Inside := by cases pc <;> unfold Inside <;> infer_instance

theorem mutex?_of_client? {pc : LockPc α} {mutex : ℕ} (h : pc.client? = some mutex) : pc.mutex? = some mutex := by
  cases pc <;> first | exact h | cases h

theorem client?_of_guard? {pc : LockPc α} {mutex : ℕ} (h : pc.guard? = some mutex) : pc.client? = some mutex := by
  cases pc <;> first | exact h | cases h

theorem guard?_of_inside {pc : LockPc α} (h : pc.Inside) : ∃ mutex, pc.guard? = some mutex := by
  cases pc <;> first | exact ⟨_, rfl⟩ | exact h.elim

theorem client?_of_waiting {pc : LockPc α} (h : pc.Waiting) : ∃ mutex, pc.client? = some mutex := by
  cases pc <;> first | exact ⟨_, rfl⟩ | exact h.elim

end LockPc

/-- A call with the name of its lock; the timeout is that of a `with_lock` call, in nanoseconds. -/
structure LockCall (α : Type) where
  name : String
  timeout : ℕ
  pc : LockPc α

structure LockSys (α : Type) extends NamedLockManager where
  clock : ℕ
  calls : ℕ → Option (LockCall α)

inductive LockAct (α : Type) where
  | tick (now : ℕ)
  | withLock (c : ℕ) (name : String) (timeout : ℕ)
  | getLock (c : ℕ)
  | request (c : ℕ)
  | enter (c : ℕ)
  | timeOut (c : ℕ)
  | finish (c : ℕ) (result : Except AppError α)
  | cancel (c : ℕ)
  | isLocked (c : ℕ) (name : String)
  | unlock (c : ℕ)

namespace LockSys
variable {α : Type}

/-- A new manager, with no call under way. -/
def new (clock : ℕ) : LockSys α := ⟨.new, clock, fun _ => none⟩

/-- The call `c` is now this one, and the manager that one. -/
def goto (s : LockSys α) (m : NamedLockManager) (c : ℕ) (call : LockCall α) : LockSys α :=
  { s with toNamedLockManager := m, calls := Function.update s.calls c (some call) }

/-- One step. A call enters once it is the first client of its mutex, also after its deadline: the timeout polls the lock
    first. The guard is dropped when the closure has returned. -/
def step (s : LockSys α) : LockAct α → Option (LockSys α)
  | .tick now => if s.clock ≤ now then some { s with clock := now } else none
  | .withLock c name timeout =>
    match s.calls c with
    | none => some (s.goto s.toNamedLockManager c ⟨name, timeout, .looking⟩)
    | some _ => none
  | .getLock c =>
    match s.calls c with
    | some ⟨name, timeout, .looking⟩ =>
      some (s.goto (s.getLock name).2 c ⟨name, timeout, .requesting (s.getLock name).1⟩)
    | _ => none
  | .request c =>
    match s.calls c with
    | some ⟨name, timeout, .requesting mutex⟩ =>
      some (s.goto (s.lock mutex c) c ⟨name, timeout, .waiting mutex (s.clock + timeout)⟩)
    | _ => none
  | .enter c =>
    match s.calls c with
    | some ⟨name, timeout, .waiting mutex _⟩ =>
      if (s.queues mutex).head? = some c then some (s.goto s.toNamedLockManager c ⟨name, timeout, .inside mutex⟩) else none
    | _ => none
  | .timeOut c =>
    match s.calls c with
    | some ⟨name, timeout, .waiting mutex deadline⟩ =>
      if deadline ≤ s.clock then
        some (s.goto (s.unlock mutex c) c ⟨name, timeout, .returned (.error (acquisitionTimeout timeout name))⟩)
      else none
    | _ => none
  | .finish c result =>
    match s.calls c with
    | some ⟨name, timeout, .inside mutex⟩ => some (s.goto (s.unlock mutex c) c ⟨name, timeout, .returned result⟩)
    | _ => none
  | .cancel c =>
    match s.calls c with
    | some ⟨name, timeout, .waiting mutex _⟩ | some ⟨name, timeout, .inside mutex⟩ =>
      some (s.goto (s.unlock mutex c) c ⟨name, timeout, .cancelled⟩)
    | _ => none
  | .isLocked c name =>
    match s.calls c, s.locks name with
    | none, none => some (s.goto s.toNamedLockManager c ⟨name, 0, .answered false⟩)
    | none, some mutex =>
      if s.queues mutex = [] then some (s.goto (s.lock mutex c) c ⟨name, 0, .probing mutex⟩)
      else some (s.goto s.toNamedLockManager c ⟨name, 0, .answered true⟩)
    | some _, _ => none
  | .unlock c =>
    match s.calls c with
    | some ⟨name, timeout, .probing mutex⟩ => some (s.goto (s.unlock mutex c) c ⟨name, timeout, .answered false⟩)
    | _ => none

end LockSys

/-! ### What a step does -/

/-- The call has a pointer to the mutex, or the manager finds it under the name. -/
def LockSys.Knows {α : Type} (s : LockSys α) (c : ℕ) (name : String) (mutex : ℕ) : Prop :=
  s.locks name = some mutex ∨ ∃ timeout pc, s.calls c = some ⟨name, timeout, pc⟩ ∧ pc.mutex? = some mutex

/-- What one step does to its call and to the queues: it leaves them alone, or the call comes to the end of one of them, or
    leaves one. -/
inductive LockMove {α : Type} (s : LockSys α) (c : ℕ) (call : LockCall α) : LockSys α → Prop
  | create (hold : (s.calls c).bind (·.pc.client?) = none) (hclient : call.pc.client? = none)
      (hmutex : call.pc.mutex? = some (s.getLock call.name).1) : LockMove s c call (s.goto (s.getLock call.name).2 c call)
  | stay (hclient : call.pc.client? = (s.calls c).bind (·.pc.client?))
      (hmutex : ∀ mutex, call.pc.mutex? = some mutex → s.Knows c call.name mutex)
      (hguard : ∀ mutex, call.pc.guard? = some mutex → Holds (s.queues mutex) c) :
      LockMove s c call (s.goto s.toNamedLockManager c call)
  | arrive (mutex : ℕ) (hold : (s.calls c).bind (·.pc.client?) = none) (hclient : call.pc.client? = some mutex)
      (hlock : s.Knows c call.name mutex) (hguard : call.pc.guard?.isSome → s.queues mutex = []) :
      LockMove s c call (s.goto (s.lock mutex c) c call)
  | leave (mutex : ℕ) (hold : (s.calls c).bind (·.pc.client?) = some mutex) (hmutex : call.pc.mutex? = none) :
      LockMove s c call (s.goto (s.unlock mutex c) c call)

/-- What a call does next, by where it stands before and after. -/
inductive LockPc.Next {α : Type} : Option (LockPc α) → LockPc α → Prop
  | started : Next none .looking
  | found (mutex : ℕ) : Next (some .looking) (.requesting mutex)
  | asked (mutex deadline : ℕ) : Next (some (.requesting mutex)) (.waiting mutex deadline)
  | entered (mutex deadline : ℕ) : Next (some (.waiting mutex deadline)) (.inside mutex)
  | timedOut (mutex deadline : ℕ) (e : AppError) : Next (some (.waiting mutex deadline)) (.returned (.error e))
  | finished (mutex : ℕ) (result : Except AppError α) : Next (some (.inside mutex)) (.returned result)
  | gaveUp (mutex deadline : ℕ) : Next (some (.waiting mutex deadline)) .cancelled
  | broken (mutex : ℕ) : Next (some (.inside mutex)) .cancelled
  | answered (locked : Bool) : Next none (.answered locked)
  | probed (mutex : ℕ) : Next none (.probing mutex)
  | unlocked (mutex : ℕ) : Next (some (.probing mutex)) (.answered false)

/-- The call waited for its lock once, and does no more. -/
def LockPc.Past {α : Type} : LockPc α → Prop
  | .inside _ | .returned _ | .cancelled => True
  | _ => False

theorem LockPc.Next.past {α : Type} {pc pc' : LockPc α} (h : Next (some pc) pc') (hpast : pc.Past ∨ pc.Waiting) :
    pc'.Past := by
  cases h <;> first | exact trivial | exact (hpast.elim id id).elim

/-- A closure is under way for one step only of its call: the next one ends it. -/
theorem LockPc.Next.not_inside {α : Type} {pc pc' : LockPc α} (h : Next (some pc) pc') (hin : pc.Inside) :
    ¬pc'.Inside := by
  cases h <;> first | exact not_false | exact hin.elim

namespace LockStep
variable {α : Type} {s t : LockSys α} {c : ℕ} {name : String} {timeout : ℕ}

theorem tick_inv {now : ℕ} (h : s.step (.tick now) = some t) : s.clock ≤ now ∧ t = { s with clock := now } := by
  simp only [LockSys.step] at h
  split at h
  · next hle => exact ⟨hle, (Option.some.inj h).symm⟩
  · cases h

theorem withLock_inv (h : s.step (.withLock c name timeout) = some t) :
    s.calls c = none ∧ t = s.goto s.toNamedLockManager c ⟨name, timeout, .looking⟩ := by
  simp only [LockSys.step] at h
  split at h
  · next hc => exact ⟨hc, (Option.some.inj h).symm⟩
  · cases h

theorem getLock_inv (h : s.step (.getLock c) = some t) :
    ∃ name timeout, s.calls c = some ⟨name, timeout, .looking⟩ ∧
      t = s.goto (s.getLock name).2 c ⟨name, timeout, .requesting (s.getLock name).1⟩ := by
  simp only [LockSys.step] at h
  split at h
  · next name timeout hc => exact ⟨name, timeout, hc, (Option.some.inj h).symm⟩
  · cases h

theorem request_inv (h : s.step (.request c) = some t) :
    ∃ name timeout mutex, s.calls c = some ⟨name, timeout, .requesting mutex⟩ ∧
      t = s.goto (s.lock mutex c) c ⟨name, timeout, .waiting mutex (s.clock + timeout)⟩ := by
  simp only [LockSys.step] at h
  split at h
  · next name timeout mutex hc => exact ⟨name, timeout, mutex, hc, (Option.some.inj h).symm⟩
  · cases h

theorem enter_inv (h : s.step (.enter c) = some t) :
    ∃ name timeout mutex deadline, s.calls c = some ⟨name, timeout, .waiting mutex deadline⟩ ∧ Holds (s.queues mutex) c ∧
      t = s.goto s.toNamedLockManager c ⟨name, timeout, .inside mutex⟩ := by
  simp only [LockSys.step] at h
  split at h
  · next name timeout mutex deadline hc =>
    split at h
    · next hhead => exact ⟨name, timeout, mutex, deadline, hc, hhead, (Option.some.inj h).symm⟩
    · cases h
  · cases h

theorem timeOut_inv (h : s.step (.timeOut c) = some t) :
    ∃ name timeout mutex deadline, s.calls c = some ⟨name, timeout, .waiting mutex deadline⟩ ∧ deadline ≤ s.clock ∧
      t = s.goto (s.unlock mutex c) c ⟨name, timeout, .returned (.error (acquisitionTimeout timeout name))⟩ := by
  simp only [LockSys.step] at h
  split at h
  · next name timeout mutex deadline hc =>
    split at h
    · next hle => exact ⟨name, timeout, mutex, deadline, hc, hle, (Option.some.inj h).symm⟩
    · cases h
  · cases h

theorem finish_inv {result : Except AppError α} (h : s.step (.finish c result) = some t) :
    ∃ name timeout mutex, s.calls c = some ⟨name, timeout, .inside mutex⟩ ∧
      t = s.goto (s.unlock mutex c) c ⟨name, timeout, .returned result⟩ := by
  simp only [LockSys.step] at h
  split at h
  · next name timeout mutex hc => exact ⟨name, timeout, mutex, hc, (Option.some.inj h).symm⟩
  · cases h

theorem cancel_inv (h : s.step (.cancel c) = some t) :
    ∃ name timeout pc mutex, s.calls c = some ⟨name, timeout, pc⟩ ∧ pc.client? = some mutex ∧
      LockPc.Next (some pc) .cancelled ∧ t = s.goto (s.unlock mutex c) c ⟨name, timeout, .cancelled⟩ := by
  simp only [LockSys.step] at h
  split at h
  · next name timeout mutex deadline hc =>
    exact ⟨name, timeout, _, mutex, hc, rfl, .gaveUp mutex deadline, (Option.some.inj h).symm⟩
  · next name timeout mutex hc => exact ⟨name, timeout, _, mutex, hc, rfl, .broken mutex, (Option.some.inj h).symm⟩
  · cases h

theorem isLocked_inv (h : s.step (.isLocked c name) = some t) :
    s.calls c = none ∧
      ((∃ locked, t = s.goto s.toNamedLockManager c ⟨name, 0, .answered locked⟩) ∨
        ∃ mutex, s.locks name = some mutex ∧ s.queues mutex = [] ∧
          t = s.goto (s.lock mutex c) c ⟨name, 0, .probing mutex⟩) := by
  simp only [LockSys.step] at h
  split at h
  · next hc _ => exact ⟨hc, Or.inl ⟨false, (Option.some.inj h).symm⟩⟩
  · next mutex hc hlock =>
    split at h
    · next hfree => exact ⟨hc, Or.inr ⟨mutex, hlock, hfree, (Option.some.inj h).symm⟩⟩
    · exact ⟨hc, Or.inl ⟨true, (Option.some.inj h).symm⟩⟩
  · cases h

theorem unlock_inv (h : s.step (.unlock c) = some t) :
    ∃ name timeout mutex, s.calls c = some ⟨name, timeout, .probing mutex⟩ ∧
      t = s.goto (s.unlock mutex c) c ⟨name, timeout, .answered false⟩ := by
  simp only [LockSys.step] at h
  split at h
  · next name timeout mutex hc => exact ⟨name, timeout, mutex, hc, (Option.some.inj h).symm⟩
  · cases h

theorem client?_eq {pc : LockPc α} (h : s.calls c = some ⟨name, timeout, pc⟩) :
    (s.calls c).bind (·.pc.client?) = pc.client? := by rw [h, Option.bind_some]

/-- The call of a step that is no tick of the clock: where it stands after the step, and what that does to the queues. -/
structure Moves (s : LockSys α) (c : ℕ) (call : LockCall α) (t : LockSys α) : Prop where
  move : LockMove s c call t
  next : LockPc.Next ((s.calls c).map (·.pc)) call.pc
  name : ∀ old, s.calls c = some old → call.name = old.name

theorem Moves.of_start (hc : s.calls c = none) {call : LockCall α} (hmove : LockMove s c call t)
    (hnext : LockPc.Next none call.pc) : Moves s c call t :=
  ⟨hmove, by rw [hc]; exact hnext, fun old h => by cases hc.symm.trans h⟩

theorem Moves.of_call {pc pc' : LockPc α} (hc : s.calls c = some ⟨name, timeout, pc⟩)
    (hmove : LockMove s c ⟨name, timeout, pc'⟩ t) (hnext : LockPc.Next (some pc) pc') :
    Moves s c ⟨name, timeout, pc'⟩ t := by
  refine ⟨hmove, by rw [hc]; exact hnext, fun old h => ?_⟩
  cases hc.symm.trans h
  rfl

/-- A step is a tick of the clock, or it moves one call on. -/
theorem moves {a : LockAct α} (h : s.step a = some t) :
    (∃ now, s.clock ≤ now ∧ t = { s with clock := now }) ∨ ∃ c call, Moves s c call t := by
  cases a with
  | tick now => exact Or.inl ⟨now, tick_inv h⟩
  | withLock c name timeout =>
    obtain ⟨hc, rfl⟩ := withLock_inv h
    exact Or.inr ⟨c, _, .of_start hc (.stay (by rw [hc]; rfl) (fun _ hm => by cases hm) fun _ hm => by cases hm) .started⟩
  | getLock c =>
    obtain ⟨name, timeout, hc, rfl⟩ := getLock_inv h
    refine Or.inr ⟨c, ⟨name, timeout, .requesting _⟩, .of_call hc ?_ (.found (s.getLock name).1)⟩
    exact .create (client?_eq hc) rfl rfl
  | request c =>
    obtain ⟨name, timeout, mutex, hc, rfl⟩ := request_inv h
    exact Or.inr ⟨c, _, .of_call hc
      (.arrive mutex (client?_eq hc) rfl (Or.inr ⟨timeout, _, hc, rfl⟩) fun hm => by cases hm) (.asked ..)⟩
  | enter c =>
    obtain ⟨name, timeout, mutex, deadline, hc, hholds, rfl⟩ := enter_inv h
    refine Or.inr ⟨c, _, .of_call hc
      (.stay (client?_eq hc).symm (fun _ hm => Or.inr ⟨timeout, _, hc, hm⟩) fun _ hm => ?_) (.entered ..)⟩
    cases hm
    exact hholds
  | timeOut c =>
    obtain ⟨name, timeout, mutex, deadline, hc, -, rfl⟩ := timeOut_inv h
    exact Or.inr ⟨c, _, .of_call hc (.leave mutex (client?_eq hc) rfl) (.timedOut ..)⟩
  | finish c result =>
    obtain ⟨name, timeout, mutex, hc, rfl⟩ := finish_inv h
    exact Or.inr ⟨c, _, .of_call hc (.leave mutex (client?_eq hc) rfl) (.finished ..)⟩
  | cancel c =>
    obtain ⟨name, timeout, pc, mutex, hc, hclient, hnext, rfl⟩ := cancel_inv h
    exact Or.inr ⟨c, _, .of_call hc (.leave mutex ((client?_eq hc).trans hclient) rfl) hnext⟩
  | isLocked c name =>
    obtain ⟨hc, ⟨locked, rfl⟩ | ⟨mutex, hlock, hfree, rfl⟩⟩ := isLocked_inv h
    · exact Or.inr ⟨c, _, .of_start hc
        (.stay (by rw [hc]; rfl) (fun _ hm => by cases hm) fun _ hm => by cases hm) (.answered locked)⟩
    · exact Or.inr ⟨c, _, .of_start hc (.arrive mutex (by rw [hc]; rfl) rfl (Or.inl hlock) fun _ => hfree) (.probed mutex)⟩
  | unlock c =>
    obtain ⟨name, timeout, mutex, hc, rfl⟩ := unlock_inv h
    exact Or.inr ⟨c, _, .of_call hc (.leave mutex (client?_eq hc) rfl) (.unlocked mutex)⟩

end LockStep

end TpnWorker
