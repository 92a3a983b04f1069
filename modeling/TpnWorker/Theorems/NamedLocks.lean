import TpnWorker.Concurrent.Locks
import TpnWorker.Lib.Simulation

/-! The named locks in every run: a name has one mutex for ever and a mutex one name, the queue of a mutex is made of the
    calls that wait for it or have its guard, and a call that has the guard is the first of its queue. -/

namespace TpnWorker
open FairLock Transition

/-- What every run keeps. -/
structure LocksKept {α : Type} (s : LockSys α) : Prop where
  created : ∀ {name mutex}, s.locks name = some mutex → mutex < s.nextMutex
  apart : ∀ {name name' mutex}, s.locks name = some mutex → s.locks name' = some mutex → name = name'
  pointer : ∀ {c call mutex}, s.calls c = some call → call.pc.mutex? = some mutex → s.locks call.name = some mutex
  queued : ∀ {c mutex}, c ∈ s.queues mutex ↔ (s.calls c).bind (·.pc.client?) = some mutex
  nodup : ∀ mutex, (s.queues mutex).Nodup
  holds : ∀ {c call mutex}, s.calls c = some call → call.pc.guard? = some mutex → Holds (s.queues mutex) c

namespace LocksKept
variable {α : Type} {s t : LockSys α} {c : ℕ} {call : LockCall α} {m : NamedLockManager} {mutex : ℕ}

theorem new (clock : ℕ) : LocksKept (LockSys.new clock : LockSys α) where
  created h := by cases h
  apart h := by cases h
  pointer h := by cases h
  queued := ⟨fun h => absurd h List.not_mem_nil, fun h => by cases h⟩
  nodup _ := List.nodup_nil
  holds h := by cases h

theorem knows (I : LocksKept s) {name : String} (h : s.Knows c name mutex) : s.locks name = some mutex := by
  rcases h with h | ⟨timeout, pc, hc, hmutex⟩
  · exact h
  · exact I.pointer hc hmutex

/-- The queues change only at one client: it is in the queue that its new place names, and the others keep theirs. -/
theorem move (I : LocksKept s) (hcreated : ∀ {name mutex}, m.locks name = some mutex → mutex < m.nextMutex)
    (happart : ∀ {name name' mutex}, m.locks name = some mutex → m.locks name' = some mutex → name = name')
    (hkept : ∀ {name mutex}, s.locks name = some mutex → m.locks name = some mutex)
    (hpointer : ∀ mutex, call.pc.mutex? = some mutex → m.locks call.name = some mutex)
    (hself : ∀ mutex, c ∈ m.queues mutex ↔ call.pc.client? = some mutex)
    (hothers : ∀ mutex d, d ≠ c → (d ∈ m.queues mutex ↔ d ∈ s.queues mutex)) (hnodup : ∀ mutex, (m.queues mutex).Nodup)
    (hguard : ∀ mutex, call.pc.guard? = some mutex → Holds (m.queues mutex) c)
    (hholds : ∀ mutex d, d ≠ c → Holds (s.queues mutex) d → Holds (m.queues mutex) d) : LocksKept (s.goto m c call) where
  created := hcreated
  apart := happart
  pointer {d call' mutex} hd hmutex := by
    rcases Function.update_some_cases hd with ⟨rfl, rfl⟩ | ⟨-, hd⟩
    · exact hpointer mutex hmutex
    · exact hkept (I.pointer hd hmutex)
  queued {d mutex} := by
    by_cases hdc : d = c
    · subst hdc
      simpa [LockSys.goto] using hself mutex
    · have hd : (s.goto m c call).calls d = s.calls d := Function.update_of_ne hdc _ _
      rw [hd]
      exact (hothers mutex d hdc).trans I.queued
  nodup := hnodup
  holds {d call' mutex} hd hheld := by
    rcases Function.update_some_cases hd with ⟨rfl, rfl⟩ | ⟨hdc, hd⟩
    · exact hguard mutex hheld
    · exact hholds mutex d hdc (I.holds hd hheld)

theorem getLock_cases (m : NamedLockManager) (name : String) :
    (∃ mutex, m.locks name = some mutex ∧ m.getLock name = (mutex, m)) ∨
      m.locks name = none ∧ m.getLock name = (m.nextMutex,
        { m with locks := Function.update m.locks name (some m.nextMutex), nextMutex := m.nextMutex + 1 }) := by
  unfold NamedLockManager.getLock
  cases h : m.locks name with
  | some mutex => exact Or.inl ⟨mutex, rfl, rfl⟩
  | none => exact Or.inr ⟨rfl, rfl⟩

/-- The call looks its lock up: a name that has none gets the next one. -/
theorem create (I : LocksKept s) (hold : (s.calls c).bind (·.pc.client?) = none) (hclient : call.pc.client? = none)
    (hmutex : call.pc.mutex? = some (s.getLock call.name).1) : LocksKept (s.goto (s.getLock call.name).2 c call) := by
  have hguard : ∀ mutex, call.pc.guard? ≠ some mutex := fun mutex h => by
    rw [LockPc.client?_of_guard? h] at hclient
    cases hclient
  have hfound : (s.getLock call.name).2.locks call.name = some (s.getLock call.name).1 := s.getLock_locks call.name
  rcases getLock_cases s.toNamedLockManager call.name with ⟨mutex, hlock, heq⟩ | ⟨hnone, heq⟩
  · rw [heq] at hmutex hfound ⊢
    refine I.move I.created I.apart id ?_ ?_ (fun _ _ _ => Iff.rfl) I.nodup (fun mutex h => absurd h (hguard mutex))
      fun _ _ _ => id
    · intro mutex' h
      cases hmutex.symm.trans h
      exact hfound
    · intro mutex'
      rw [I.queued, hold, hclient]
  · rw [heq] at hmutex hfound ⊢
    refine I.move ?_ ?_ ?_ ?_ ?_ (fun _ _ _ => Iff.rfl) I.nodup (fun mutex h => absurd h (hguard mutex)) fun _ _ _ => id
    · intro name mutex h
      rcases Function.update_some_cases h with ⟨-, rfl⟩ | ⟨-, h⟩
      · exact Nat.lt_succ_self _
      · exact Nat.lt_succ_of_lt (I.created h)
    · intro name name' mutex h h'
      rcases Function.update_some_cases h with ⟨rfl, rfl⟩ | ⟨-, h⟩ <;>
        rcases Function.update_some_cases h' with ⟨rfl, heq'⟩ | ⟨-, h'⟩
      · rfl
      · exact absurd (I.created h') (Nat.lt_irrefl _)
      · exact absurd (I.created (heq' ▸ h)) (Nat.lt_irrefl _)
      · exact I.apart h h'
    · intro name mutex h
      have hne : name ≠ call.name := by
        rintro rfl
        cases hnone.symm.trans h
      exact (Function.update_of_ne hne _ _).trans h
    · intro mutex h
      cases hmutex.symm.trans h
      exact hfound
    · intro mutex
      rw [I.queued, hold, hclient]

theorem of_move (I : LocksKept s) (h : LockMove s c call t) : LocksKept t := by
  cases h with
  | create hold hclient hmutex => exact I.create hold hclient hmutex
  | stay hclient hmutex hguard =>
    refine I.move I.created I.apart id (fun mutex h => I.knows (hmutex mutex h)) ?_ (fun _ _ _ => Iff.rfl) I.nodup hguard
      fun _ _ _ => id
    intro mutex
    rw [I.queued, hclient]
  | arrive mutex hold hclient hlock hguard =>
    have hnot : ∀ mutex', c ∉ s.queues mutex' := by
      intro mutex' h
      rw [I.queued, hold] at h
      cases h
    refine I.move I.created I.apart id ?_ ?_ ?_ ?_ ?_ ?_
    · intro mutex' h
      cases (LockPc.mutex?_of_client? hclient).symm.trans h
      exact I.knows hlock
    · intro mutex'
      by_cases hm : mutex' = mutex
      · subst hm
        simp [NamedLockManager.lock, hclient]
      · simp [NamedLockManager.lock, hm, hnot, hclient, Ne.symm hm]
    · intro mutex' d hd
      by_cases hm : mutex' = mutex
      · subst hm
        simp [NamedLockManager.lock, hd]
      · simp [NamedLockManager.lock, hm]
    · intro mutex'
      by_cases hm : mutex' = mutex
      · subst hm
        simpa [NamedLockManager.lock] using nodup_arrive (I.nodup mutex') (hnot mutex')
      · simpa [NamedLockManager.lock, hm] using I.nodup mutex'
    · intro mutex' h
      cases (LockPc.client?_of_guard? h).symm.trans hclient
      have hfree := hguard (by rw [h]; rfl)
      simp [NamedLockManager.lock, hfree, arrive, Holds]
    · intro mutex' d _ hholds
      by_cases hm : mutex' = mutex
      · subst hm
        simpa [NamedLockManager.lock] using hholds.arrive c
      · simpa [NamedLockManager.lock, hm] using hholds
  | leave mutex hold hmutex =>
    have hclient : call.pc.client? = none := by
      cases h : call.pc.client? with
      | none => rfl
      | some m => cases hmutex.symm.trans (LockPc.mutex?_of_client? h)
    have honly : ∀ mutex', c ∈ s.queues mutex' → mutex' = mutex := by
      intro mutex' h
      rw [I.queued, hold] at h
      exact (Option.some.inj h).symm
    refine I.move I.created I.apart id (fun _ h => by cases hmutex.symm.trans h) ?_ ?_ ?_ ?_ ?_
    · intro mutex'
      by_cases hm : mutex' = mutex
      · subst hm
        simp [NamedLockManager.unlock, I.nodup, hclient]
      · simpa [NamedLockManager.unlock, hm, hclient] using fun h => hm (honly mutex' h)
    · intro mutex' d hd
      by_cases hm : mutex' = mutex
      · subst hm
        simp [NamedLockManager.unlock, I.nodup, hd]
      · simp [NamedLockManager.unlock, hm]
    · intro mutex'
      by_cases hm : mutex' = mutex
      · subst hm
        simpa [NamedLockManager.unlock] using nodup_leave (I.nodup mutex')
      · simpa [NamedLockManager.unlock, hm] using I.nodup mutex'
    · intro mutex' h
      cases (LockPc.client?_of_guard? h).symm.trans hclient
    · intro mutex' d hd hholds
      by_cases hm : mutex' = mutex
      · subst hm
        simpa [NamedLockManager.unlock] using hholds.leave (Ne.symm hd)
      · simpa [NamedLockManager.unlock, hm] using hholds

theorem step (I : LocksKept s) {a : LockAct α} (h : s.step a = some t) : LocksKept t := by
  rcases LockStep.moves h with ⟨now, -, rfl⟩ | ⟨c, call, hmoves⟩
  · exact ⟨I.created, I.apart, I.pointer, I.queued, I.nodup, I.holds⟩
  · exact I.of_move hmoves.move

theorem of_reach {C : LockSys α → LockAct α → Prop} {clock : ℕ} (hr : Reach LockSys.step C (.new clock) s) :
    LocksKept s := hr.inv (.new clock) fun _ _ _ I _ h => I.step h

end LocksKept

/-! ### One closure at a time -/

/-- The calls whose closures are under way are the holders of plain locks. -/
def LockSys.HeldAs {α : Type} (s : LockSys α) (holder : String → Option ℕ) : Prop :=
  ∀ name c, holder name = some c ↔ ∃ call, s.calls c = some call ∧ call.name = name ∧ call.pc.Inside

section Plain
variable {α : Type} {s t : LockSys α} {c : ℕ} {call : LockCall α} {m : NamedLockManager} {holder : String → Option ℕ}

theorem LocksKept.inside_unique (I : LocksKept s) {d : ℕ} {call' : LockCall α} (hc : s.calls c = some call)
    (hd : s.calls d = some call') (hname : call.name = call'.name) (hin : call.pc.guard?.isSome)
    (hin' : call'.pc.guard?.isSome) : c = d := by
  obtain ⟨mutex, hguard⟩ := Option.isSome_iff_exists.mp hin
  obtain ⟨mutex', hguard'⟩ := Option.isSome_iff_exists.mp hin'
  have hlock := I.pointer hc (LockPc.mutex?_of_client? (LockPc.client?_of_guard? hguard))
  have hlock' := I.pointer hd (LockPc.mutex?_of_client? (LockPc.client?_of_guard? hguard'))
  rw [hname, hlock'] at hlock
  cases hlock
  exact (I.holds hc hguard).unique (I.holds hd hguard')

/-- A call moves on outside of its closure. -/
theorem LockSys.HeldAs.outside (H : s.HeldAs holder) (hold : ∀ old, s.calls c = some old → ¬old.pc.Inside)
    (hnew : ¬call.pc.Inside) : (s.goto m c call).HeldAs holder := by
  intro name d
  rw [H name d]
  by_cases hdc : d = c
  · subst hdc
    simp only [LockSys.goto, Function.update_self, Option.some.injEq]
    constructor
    · rintro ⟨old, hd, -, hin⟩
      exact absurd hin (hold old hd)
    · rintro ⟨call', rfl, -, hin⟩
      exact absurd hin hnew
  · simp [LockSys.goto, Function.update_of_ne hdc]

/-- A call whose closure begins acquires the plain lock of its name. -/
theorem LockSys.HeldAs.entered (H : s.HeldAs holder) (hold : ∀ old, s.calls c = some old → ¬old.pc.Inside)
    (hnew : call.pc.Inside) (hfree : holder call.name = none) :
    (s.goto m c call).HeldAs fun name => if name = call.name then some c else holder name := by
  intro name d
  by_cases hdc : d = c
  · subst hdc
    simp only [LockSys.goto, Function.update_self, Option.some.injEq]
    constructor
    · intro h
      split at h
      · next hname => exact ⟨call, rfl, hname.symm, hnew⟩
      · obtain ⟨old, hd, -, hin⟩ := (H name d).mp h
        exact absurd hin (hold old hd)
    · rintro ⟨call', rfl, hname, -⟩
      rw [if_pos hname.symm]
  · simp only [LockSys.goto, Function.update_of_ne hdc]
    rw [← H name d]
    by_cases hname : name = call.name
    · rw [if_pos hname, hname, hfree]
      simp [Ne.symm hdc]
    · rw [if_neg hname]

/-- A call whose closure has ended releases the plain lock of its name. -/
theorem LockSys.HeldAs.left (H : s.HeldAs holder) (hold : holder call.name = some c) (hnew : ¬call.pc.Inside) :
    (s.goto m c call).HeldAs fun name => if name = call.name then none else holder name := by
  intro name d
  by_cases hdc : d = c
  · subst hdc
    simp only [LockSys.goto, Function.update_self, Option.some.injEq]
    constructor
    · intro h
      split at h
      · cases h
      · next hname =>
        obtain ⟨old, hd, hname', hin⟩ := (H name d).mp h
        obtain ⟨old', hd', hname'', -⟩ := (H _ d).mp hold
        cases hd.symm.trans hd'
        exact absurd (hname'.symm.trans hname'') hname
    · rintro ⟨call', rfl, -, hin⟩
      exact absurd hin hnew
  · simp only [LockSys.goto, Function.update_of_ne hdc]
    rw [← H name d]
    by_cases hname : name = call.name
    · rw [if_pos hname, hname, hold]
      simp [Ne.symm hdc]
    · rw [if_neg hname]

/-- A step of the manager is one step of the plain locks, or none. -/
theorem LockSys.HeldAs.step (H : s.HeldAs holder) (I : LocksKept s) {a : LockAct α} (h : s.step a = some t) :
    t.HeldAs holder ∨ ∃ op holder', plainLocks holder op = some holder' ∧ t.HeldAs holder' := by
  rcases LockStep.moves h with ⟨now, -, rfl⟩ | ⟨c, call, hmove, hnext, hname⟩
  · exact Or.inl H
  have I' := I.of_move hmove
  obtain ⟨m, rfl⟩ : ∃ m, t = s.goto m c call := by cases hmove <;> exact ⟨_, rfl⟩
  have hself : (s.goto m c call).calls c = some call := Function.update_self ..
  by_cases hold : ∃ old, s.calls c = some old ∧ old.pc.Inside
  · -- the closure was under way, so it has ended
    obtain ⟨old, hc, hin⟩ := hold
    have hnew : ¬call.pc.Inside := by
      rw [hc] at hnext
      exact hnext.not_inside hin
    have hholder : holder call.name = some c := (H call.name c).mpr ⟨old, hc, (hname old hc).symm, hin⟩
    exact Or.inr ⟨.release call.name c, _, if_pos hholder, H.left hholder hnew⟩
  · have hold' : ∀ old, s.calls c = some old → ¬old.pc.Inside := fun old hc hin => hold ⟨old, hc, hin⟩
    by_cases hnew : call.pc.Inside
    · have hfree : holder call.name = none := by
        cases hholder : holder call.name with
        | none => rfl
        | some d =>
          obtain ⟨old, hd, hsame, hin⟩ := (H call.name d).mp hholder
          have hdc : d ≠ c := by
            rintro rfl
            exact hold' old hd hin
          have hd' : (s.goto m c call).calls d = some old := (Function.update_of_ne hdc _ _).trans hd
          have hguard : ∀ {pc : LockPc α}, pc.Inside → pc.guard?.isSome := fun h =>
            Option.isSome_iff_exists.mpr (LockPc.guard?_of_inside h)
          exact absurd (I'.inside_unique hd' hself hsame (hguard hin) (hguard hnew)) hdc
      exact Or.inr ⟨.acquire call.name c, _, if_pos hfree, H.entered hold' hnew hfree⟩
    · exact Or.inl (H.outside hold' hnew)

/-- The closures that run under the manager's locks are the holders of plain locks, one for each name, in every run. -/
theorem sections_refine_plain_locks {C : LockSys α → LockAct α → Prop} {clock : ℕ}
    (hr : Reach LockSys.step C (.new clock) s) :
    ∃ holder, Reach plainLocks (fun _ _ => True) (fun _ : String => none) holder ∧
      ∀ name c, holder name = some c ↔ ∃ call, s.calls c = some call ∧ call.name = name ∧ call.pc.Inside := by
  refine hr.simulate (R := fun s holder => s.HeldAs holder) ?_ ?_
  · intro name c
    constructor
    · intro h
      cases h
    · rintro ⟨call, hc, -⟩
      cases hc
  · intro s a t holder hr H _ h
    rcases H.step (.of_reach hr) h with H | ⟨op, holder', hop, H⟩
    · exact ⟨holder, .refl, H⟩
    · exact ⟨holder', .single op trivial hop, H⟩

end Plain

/-- Call `c` asks for the lock of the SOCKS5 leases. -/
def LockAct.ask (c : ℕ) : List (LockAct Unit) := [.withLock c "get_socks5_config" 30000000000, .getLock c, .request c]

/-- The closure of call 1 is under way, and call 2 waits behind it. -/
def heldLock : List (LockAct Unit) := LockAct.ask 1 ++ LockAct.ask 2 ++ [.enter 1]

/-- Call 1 holds the plain lock. -/
theorem held_lock_refines : ∃ s holder, exec LockSys.step (.new 0) heldLock = some s ∧
    Reach plainLocks (fun _ _ => True) (fun _ : String => none) holder ∧ holder "get_socks5_config" = some 1 := by
  obtain ⟨s, hs⟩ : ∃ s, exec LockSys.step (.new 0) heldLock = some s := ⟨_, rfl⟩
  obtain ⟨holder, hr, hholder⟩ := sections_refine_plain_locks (Reach.of_exec (E := fun _ => True) (fun _ _ => trivial) hs)
  cases hs
  exact ⟨_, holder, rfl, hr, (hholder _ 1).mpr ⟨_, rfl, rfl, trivial⟩⟩

/-! ### A lock is never lost -/

section Lost
variable {α : Type} {s : LockSys α} {C : LockSys α → LockAct α → Prop} {clock c : ℕ} {call : LockCall α}

/-- The clients of a name are the calls that wait for its lock or have its guard. -/
theorem LocksKept.clients_iff (I : LocksKept s) {name : String} :
    c ∈ s.clients name ↔ ∃ call, s.calls c = some call ∧ call.name = name ∧ call.pc.client?.isSome := by
  unfold NamedLockManager.clients
  constructor
  · intro h
    cases hlock : s.locks name with
    | none =>
      rw [hlock] at h
      cases h
    | some mutex =>
      rw [hlock] at h
      obtain ⟨call, hc, hclient⟩ := Option.bind_eq_some_iff.mp (I.queued.mp h)
      refine ⟨call, hc, I.apart (I.pointer hc (LockPc.mutex?_of_client? hclient)) hlock, ?_⟩
      rw [hclient]
      rfl
  · rintro ⟨call, hc, rfl, hsome⟩
    obtain ⟨mutex, hclient⟩ := Option.isSome_iff_exists.mp hsome
    rw [I.pointer hc (LockPc.mutex?_of_client? hclient)]
    exact I.queued.mpr (by rw [hc]; exact hclient)

/-- While a call waits for the lock of a name, a call of this name has the guard or can enter now; and `is_locked` says
    yes exactly while there is a call that waits for the lock or has its guard. -/
theorem lock_never_lost (hr : Reach LockSys.step C (.new clock) s) :
    (∀ c call, s.calls c = some call → call.pc.client?.isSome →
      ∃ d call', s.calls d = some call' ∧ call'.name = call.name ∧
        (call'.pc.guard?.isSome ∨ (s.step (.enter d)).isSome)) ∧
    ∀ name, s.isLocked name = true ↔
      ∃ c call, s.calls c = some call ∧ call.name = name ∧ call.pc.client?.isSome := by
  have I := LocksKept.of_reach hr
  constructor
  · intro c call hc hsome
    obtain ⟨mutex, hclient⟩ := Option.isSome_iff_exists.mp hsome
    obtain ⟨d, hd⟩ := exists_holds (I.queued.mpr (show (s.calls c).bind _ = _ by rw [hc]; exact hclient))
    obtain ⟨call', hc', hclient'⟩ := Option.bind_eq_some_iff.mp (I.queued.mp hd.mem)
    have hname : call'.name = call.name :=
      I.apart (I.pointer hc' (LockPc.mutex?_of_client? hclient')) (I.pointer hc (LockPc.mutex?_of_client? hclient))
    refine ⟨d, call', hc', hname, ?_⟩
    obtain ⟨name, timeout, pc⟩ := call'
    cases pc with
    | waiting m deadline =>
      cases hclient'
      have hhead : (s.queues mutex).head? = some d := hd
      exact Or.inr (by simp [LockSys.step, hc', hhead])
    | inside m => exact Or.inl rfl
    | probing m => exact Or.inl rfl
    | _ => cases hclient'
  · intro name
    simp only [NamedLockManager.isLocked, Bool.not_eq_true', List.isEmpty_eq_false_iff_exists_mem]
    exact exists_congr fun c => I.clients_iff

end Lost

/-- Call 2 waits while call 1 has the guard, and the lock is reported as held. -/
theorem held_lock_not_lost : ∃ s, exec LockSys.step (.new 0) heldLock = some s ∧
    (∃ d call, s.calls d = some call ∧ call.name = "get_socks5_config" ∧
      (call.pc.guard?.isSome ∨ (s.step (.enter d)).isSome)) ∧ s.isLocked "get_socks5_config" = true := by
  obtain ⟨s, hs⟩ : ∃ s, exec LockSys.step (.new 0) heldLock = some s := ⟨_, rfl⟩
  obtain ⟨hlive, hlocked⟩ := lock_never_lost (Reach.of_exec (E := fun _ => True) (fun _ _ => trivial) hs)
  cases hs
  exact ⟨_, rfl, hlive 2 _ rfl rfl, (hlocked _).mpr ⟨2, _, rfl, rfl, rfl⟩⟩

/-! ### First come, first served -/

section Order
variable {α : Type} {s t u : LockSys α} {C : LockSys α → LockAct α → Prop} {c d e clock mutex : ℕ} {call : LockCall α}

/-- The queue of a mutex after a move of another call: who was ahead stays ahead, also of a call that comes. -/
theorem LocksKept.ahead_of_move (I : LocksKept s) (h : LockMove s e call t) (hc : e ≠ c) (hmem : c ∈ s.queues mutex)
    (hahead : d ∈ s.queues mutex → Ahead (s.queues mutex) c d) (hd : d ∈ t.queues mutex) :
    Ahead (t.queues mutex) c d := by
  cases h with
  | create =>
    have hqueues : (s.getLock call.name).2.queues = s.queues := by
      rcases LocksKept.getLock_cases s.toNamedLockManager call.name with ⟨_, -, heq⟩ | ⟨-, heq⟩ <;> rw [heq]
    simp only [LockSys.goto, hqueues] at hd ⊢
    exact hahead hd
  | stay => exact hahead hd
  | arrive m =>
    by_cases hm : mutex = m
    · subst hm
      simp only [LockSys.goto, NamedLockManager.lock, Function.update_self] at hd ⊢
      rcases mem_arrive.mp hd with hd | rfl
      · exact (hahead hd).arrive e
      · exact ahead_arrive hmem d
    · simp only [LockSys.goto, NamedLockManager.lock, Function.update_of_ne hm] at hd ⊢
      exact hahead hd
  | leave m =>
    by_cases hm : mutex = m
    · subst hm
      simp only [LockSys.goto, NamedLockManager.unlock, Function.update_self] at hd ⊢
      obtain ⟨hde, hd⟩ := (mem_leave (I.nodup mutex)).mp hd
      exact (hahead hd).leave hc (Ne.symm hde)
    · simp only [LockSys.goto, NamedLockManager.unlock, Function.update_of_ne hm] at hd ⊢
      exact hahead hd

/-- The call `c` still waits as it did, ahead of `d`, or it waits no more. -/
def LockSys.Before (c d : ℕ) (call : LockCall α) (mutex : ℕ) (s : LockSys α) : Prop :=
  s.calls c = some call ∧ (d ∈ s.queues mutex → Ahead (s.queues mutex) c d) ∨
    ∃ call', s.calls c = some call' ∧ call'.pc.Past

theorem LockSys.Before.step {a : LockAct α} (B : s.Before c d call mutex) (I : LocksKept s) (hwait : call.pc.Waiting)
    (hclient : call.pc.client? = some mutex) (h : s.step a = some t) : t.Before c d call mutex := by
  rcases LockStep.moves h with ⟨now, -, rfl⟩ | ⟨e, moved, hmove, hnext, -⟩
  · exact B
  obtain ⟨m, ht⟩ : ∃ m, t = s.goto m e moved := by cases hmove <;> exact ⟨_, rfl⟩
  by_cases hec : e = c
  · have hself : t.calls c = some moved := by
      rw [ht, hec]
      exact Function.update_self ..
    rw [hec] at hnext
    refine Or.inr ⟨moved, hself, ?_⟩
    rcases B with ⟨hc, -⟩ | ⟨call', hc, hpast⟩
    · rw [hc] at hnext
      exact hnext.past (Or.inr hwait)
    · rw [hc] at hnext
      exact hnext.past (Or.inl hpast)
  · have hframe : t.calls c = s.calls c := by
      rw [ht]
      exact Function.update_of_ne (Ne.symm hec) _ _
    rcases B with ⟨hc, hahead⟩ | ⟨call', hc, hpast⟩
    · have hmem : c ∈ s.queues mutex := I.queued.mpr (by rw [hc]; exact hclient)
      exact Or.inl ⟨hframe.trans hc, I.ahead_of_move hmove hec hmem hahead⟩
    · exact Or.inr ⟨call', hframe.trans hc, hpast⟩

/-- Locks are granted in the order of the requests: a call that waits while another one has not asked for the lock yet
    waits no more once the closure of the other one is under way. -/
theorem first_come_first_served {call' : LockCall α} (hr : Reach LockSys.step C (.new clock) s)
    (hc : s.calls c = some call) (hwait : call.pc.Waiting) (hd : ∀ old, s.calls d = some old → old.pc.client? = none)
    (hrun : Reach LockSys.step C s t) (hd' : t.calls d = some call') (hin : call'.pc.Inside)
    (hname : call'.name = call.name) : ∃ now, t.calls c = some now ∧ ¬now.pc.Waiting := by
  have I := LocksKept.of_reach hr
  obtain ⟨mutex, hclient⟩ := LockPc.client?_of_waiting hwait
  have hlock := I.pointer hc (LockPc.mutex?_of_client? hclient)
  have hbefore : s.Before c d call mutex := by
    refine Or.inl ⟨hc, fun h => ?_⟩
    obtain ⟨old, hold, hold'⟩ := Option.bind_eq_some_iff.mp (I.queued.mp h)
    cases (hd old hold).symm.trans hold'
  have hkept : LocksKept t ∧ t.Before c d call mutex ∧ t.locks call.name = some mutex := by
    refine hrun.inv (I := fun u => LocksKept u ∧ u.Before c d call mutex ∧ u.locks call.name = some mutex)
      ⟨I, hbefore, hlock⟩ ?_
    rintro s a t ⟨I, B, hlock⟩ - h
    refine ⟨I.step h, B.step I hwait hclient h, ?_⟩
    rcases LockStep.moves h with ⟨now, -, rfl⟩ | ⟨e, moved, hmove, -, -⟩
    · exact hlock
    cases hmove with
    | create =>
      rcases LocksKept.getLock_cases s.toNamedLockManager moved.name with ⟨_, -, heq⟩ | ⟨hnone, heq⟩
      · simp only [LockSys.goto, heq]
        exact hlock
      · simp only [LockSys.goto, heq]
        have hne : call.name ≠ moved.name := fun h => by cases (h ▸ hlock).symm.trans hnone
        exact (Function.update_of_ne hne _ _).trans hlock
    | _ => exact hlock
  obtain ⟨I', B', hlock'⟩ := hkept
  rcases B' with ⟨hc', hahead⟩ | ⟨now, hc', hpast⟩
  · obtain ⟨mutex', hguard⟩ := LockPc.guard?_of_inside hin
    have hsame := I'.pointer hd' (LockPc.mutex?_of_client? (LockPc.client?_of_guard? hguard))
    rw [hname, hlock'] at hsame
    cases hsame
    have hholds := I'.holds hd' hguard
    exact absurd hholds ((hahead hholds.mem).not_holds (I'.nodup mutex))
  · refine ⟨now, hc', fun hw => ?_⟩
    cases hpc : now.pc <;> rw [hpc] at hpast hw <;> first | exact hpast | exact hw

end Order

/-- Call 1 asked for the lock before call 2, and has returned when the closure of call 2 is under way. -/
theorem asked_first_served_first : ∃ s t now, exec LockSys.step (.new 0) (LockAct.ask 1) = some s ∧
    exec LockSys.step s (LockAct.ask 2 ++ [.enter 1, .finish 1 (.ok ()), .enter 2]) = some t ∧ t.calls 1 = some now ∧
    ¬now.pc.Waiting := by
  obtain ⟨s, hs⟩ : ∃ s, exec LockSys.step (.new 0) (LockAct.ask 1) = some s := ⟨_, rfl⟩
  have hr := Reach.of_exec (E := fun _ => True) (fun _ _ => trivial) hs
  obtain ⟨t, ht⟩ : ∃ t, exec LockSys.step s (LockAct.ask 2 ++ [.enter 1, .finish 1 (.ok ()), .enter 2]) = some t := by
    cases hs
    exact ⟨_, rfl⟩
  have hrun := Reach.of_exec (E := fun _ => True) (fun _ _ => trivial) ht
  have hrun' := ht
  cases hs
  cases ht
  obtain ⟨now, hnow, hpast⟩ := first_come_first_served (c := 1) (d := 2) hr rfl trivial (fun _ h => by cases h) hrun rfl
    trivial rfl
  exact ⟨_, _, now, rfl, hrun', hnow, hpast⟩

end TpnWorker
