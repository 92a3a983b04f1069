import TpnWorker.Lib.Update
import TpnWorker.Proxy.Credentials

/-! A worker whose SOCKS5 operations run concurrently: `get_socks5_config` calls by their statements, and whole
    extensions, cleanups, reloads and ticks of the clock. Two history variables record which exclusive lease
    each call was granted and which call a username was last granted to; no step reads them. -/

namespace TpnWorker
open Keyed

/-- Where a `get_socks5_config` call stands, by what it does next. The first two and `handedOut` belong to a
    priority call. -/
inductive SockPc where
  | picking
  | updating (config : Socks5Config)
  | acquiring
  | selecting
  | cleaning
  | reselecting
  | marking (config : Socks5Config)
  | handedOut (config : Socks5Config)
  | leased (config : Socks5Config)
  | failed (error : AppError)
deriving DecidableEq

namespace SockPc

/-- The call holds the named lock. -/
def Locked : SockPc → Prop
  | selecting | cleaning | reselecting | marking _ => True
  | _ => False

/-- The config that a priority call picked. -/
def priority? : SockPc → Option Socks5Config
  | updating config | handedOut config => some config
  | _ => none

/-- The config that a non-priority call selected and has yet to mark. -/
def marking? : SockPc → Option Socks5Config
  | marking config => some config
  | _ => none

def Leased : SockPc → Prop
  | leased _ => True
  | _ => False

end SockPc

/-- A `get_socks5_config` call with the expiry that it asks for. -/
structure SockCall where
  expiresAt : Int
  pc : SockPc
deriving DecidableEq

/-- An exclusive lease: the config that was handed out, and the expiry that its call or its last extension
    gave it. -/
structure SockLease where
  config : Socks5Config
  expiresAt : Int
deriving DecidableEq

structure SockSys where
  table : Socks5Table
  credentials : Credentials
  clock : Int
  lock : Option ℕ
  calls : ℕ → Option SockCall
  holder : String → Option ℕ
  leases : ℕ → Option SockLease

/-- What a call does in one step, with the values that it draws. -/
inductive SockCallAct where
  | start (priority : Bool) (expiresAt : Int)
  | pick (choice : ℕ)
  | handOut (nowMs : Int)
  | acquire
  | lockTimeout
  | select
  | cleanup
  | mark (nowMs : Int)
  | dbError (error : String)

inductive SockAct where
  | tick (now : Int)
  | call (c : ℕ) (a : SockCallAct)
  | extend (username : String) (expectedExpiresAt newExpiresAt : Int)
  | cleanup
  | reload

namespace SockSys

/-- A worker that has loaded its credentials and has no operation under way. -/
def start (table : Socks5Table) (clock : Int) : SockSys :=
  ⟨table, loadFromDb table, clock, none, fun _ => none, fun _ => none, fun _ => none⟩

/-- Call `c`, which asks for the expiry `e`, moves on. -/
def goto (s : SockSys) (c : ℕ) (e : Int) (pc : SockPc) : SockSys :=
  { s with calls := Function.update s.calls c (some ⟨e, pc⟩) }

/-- The exclusive lease of call `c` starts. -/
def grant (s : SockSys) (c : ℕ) (config : Socks5Config) (e : Int) : SockSys :=
  { s with holder := Function.update s.holder config.username (some c)
           leases := Function.update s.leases c (some ⟨config, e⟩) }

/-- The lease that holds the slot of `username` gets a new expiry. -/
def prolong (s : SockSys) (username : String) (new : Int) : SockSys :=
  { s with leases := fun c => (s.leases c).map fun l =>
      if s.holder username = some c then { l with expiresAt := new } else l }

/-- The message of `with_lock` after 30 seconds. -/
def lockTimeoutError : AppError := .internal "Lock acquisition timeout after 30s: get_socks5_config"

/-- One step of call `c`. -/
def callStep (prioritySlots : Int) (s : SockSys) (c : ℕ) : SockCallAct → Option SockSys
  | .start priority e =>
    match s.calls c with
    | none => some (s.goto c e (if priority then .picking else .acquiring))
    | some _ => none
  | .pick choice =>
    match s.calls c with
    | some ⟨e, .picking⟩ =>
      let configs := priorityConfigs s.table prioritySlots
      match configs[choice % configs.length]? with
      | none => some (s.goto c e (.failed noPriorityConfigs))
      | some config => some (s.goto c e (.updating config))
    | _ => none
  | .handOut nowMs =>
    match s.calls c with
    | some ⟨e, .updating config⟩ =>
      some { s.goto c e (.handedOut config) with table := updatePriority s.table config e nowMs }
    | _ => none
  | .acquire =>
    match s.calls c, s.lock with
    | some ⟨e, .acquiring⟩, none => some { s.goto c e .selecting with lock := some c }
    | _, _ => none
  | .lockTimeout =>
    match s.calls c with
    | some ⟨e, .acquiring⟩ => some (s.goto c e (.failed lockTimeoutError))
    | _ => none
  | .select =>
    match s.calls c, nonPriorityConfig s.table prioritySlots with
    | some ⟨e, .selecting⟩, some config | some ⟨e, .reselecting⟩, some config => some (s.goto c e (.marking config))
    | some ⟨e, .selecting⟩, none => some (s.goto c e .cleaning)
    | some ⟨e, .reselecting⟩, none => some { s.goto c e (.failed noNonPriorityConfigs) with lock := none }
    | _, _ => none
  | .cleanup =>
    match s.calls c with
    | some ⟨e, .cleaning⟩ =>
      some { s.goto c e .reselecting with table := (cleanupExpiredSocks5Configs s.table s.clock).2 }
    | _ => none
  | .mark nowMs =>
    match s.calls c with
    | some ⟨e, .marking config⟩ =>
      -- the closure returns, and its guard drops the lock
      some { (s.goto c e (.leased config)).grant c config e with
              table := markUnavailable s.table config e nowMs, lock := none }
    | _ => none
  | .dbError error =>
    match s.calls c with
    | some ⟨e, .picking⟩ | some ⟨e, .updating _⟩ => some (s.goto c e (.failed (.db error)))
    | some ⟨e, .selecting⟩ | some ⟨e, .cleaning⟩ | some ⟨e, .reselecting⟩ | some ⟨e, .marking _⟩ =>
      some { s.goto c e (.failed (.db error)) with lock := none }
    | _ => none

/-- One step of the worker. Extensions and cleanups read the clock in their own step. -/
def step (prioritySlots : Int) (s : SockSys) : SockAct → Option SockSys
  | .tick now => if s.clock ≤ now then some { s with clock := now } else none
  | .call c a => callStep prioritySlots s c a
  | .extend username expected new =>
    match extendSocks5Lease s.table username expected new s.clock with
    | (.ok _, table) => some { s.prolong username new with table }
    | (.error _, table) => some { s with table }
  | .cleanup => some { s with table := (cleanupExpiredSocks5Configs s.table s.clock).2 }
  | .reload => some { s with credentials := loadFromDb s.table }

end SockSys

/-! ### Lists of steps -/

/-- The steps of an exclusive allocation that finds a slot. -/
def SockAct.lease (c : ℕ) (expiresAt : Int) : List SockAct :=
  [.call c (.start false expiresAt), .call c .acquire, .call c .select, .call c (.mark 0)]

/-! ### What a step has done -/

theorem SockSys.calls_goto {s : SockSys} {c : ℕ} {e : Int} {pc : SockPc} {c' : ℕ} {call : SockCall}
    (h : (s.goto c e pc).calls c' = some call) : c' = c ∧ call = ⟨e, pc⟩ ∨ c' ≠ c ∧ s.calls c' = some call :=
  Function.update_some_cases h

namespace SockStep
variable {N : Int} {s t : SockSys} {c : ℕ}
open SockSys

theorem start_inv {priority : Bool} {e : Int} (h : callStep N s c (.start priority e) = some t) :
    s.calls c = none ∧ (t = s.goto c e .picking ∨ t = s.goto c e .acquiring) := by
  simp only [callStep] at h
  split at h
  · next hc =>
    refine ⟨hc, ?_⟩
    cases priority with
    | true => exact Or.inl (Option.some.inj h).symm
    | false => exact Or.inr (Option.some.inj h).symm
  · cases h

theorem pick_inv {choice : ℕ} (h : callStep N s c (.pick choice) = some t) :
    ∃ e, s.calls c = some ⟨e, .picking⟩ ∧ (t = s.goto c e (.failed noPriorityConfigs) ∨
      ∃ config ∈ priorityConfigs s.table N, t = s.goto c e (.updating config)) := by
  simp only [callStep] at h
  split at h
  · next e hc =>
    split at h
    · exact ⟨e, hc, Or.inl (Option.some.inj h).symm⟩
    · next config hget => exact ⟨e, hc, Or.inr ⟨config, List.mem_of_getElem? hget, (Option.some.inj h).symm⟩⟩
  · cases h

theorem handOut_inv {nowMs : Int} (h : callStep N s c (.handOut nowMs) = some t) :
    ∃ e config, s.calls c = some ⟨e, .updating config⟩ ∧
      t = { s.goto c e (.handedOut config) with table := updatePriority s.table config e nowMs } := by
  simp only [callStep] at h
  split at h
  · next e config hc => exact ⟨e, config, hc, (Option.some.inj h).symm⟩
  · cases h

theorem acquire_inv (h : callStep N s c .acquire = some t) :
    ∃ e, s.calls c = some ⟨e, .acquiring⟩ ∧ s.lock = none ∧ t = { s.goto c e .selecting with lock := some c } := by
  simp only [callStep] at h
  split at h
  · next e hc hl => exact ⟨e, hc, hl, (Option.some.inj h).symm⟩
  · cases h

theorem lockTimeout_inv (h : callStep N s c .lockTimeout = some t) :
    ∃ e, s.calls c = some ⟨e, .acquiring⟩ ∧ t = s.goto c e (.failed lockTimeoutError) := by
  simp only [callStep] at h
  split at h
  · next e hc => exact ⟨e, hc, (Option.some.inj h).symm⟩
  · cases h

theorem select_inv (h : callStep N s c .select = some t) :
    ∃ e pc, s.calls c = some ⟨e, pc⟩ ∧ pc.Locked ∧ ¬pc.Leased ∧
      ((∃ config, nonPriorityConfig s.table N = some config ∧ t = s.goto c e (.marking config)) ∨
        t = s.goto c e .cleaning ∨ t = { s.goto c e (.failed noNonPriorityConfigs) with lock := none }) := by
  simp only [callStep] at h
  split at h
  · next e config hc hcfg => exact ⟨e, _, hc, trivial, not_false, Or.inl ⟨config, hcfg, (Option.some.inj h).symm⟩⟩
  · next e config hc hcfg => exact ⟨e, _, hc, trivial, not_false, Or.inl ⟨config, hcfg, (Option.some.inj h).symm⟩⟩
  · next e hc _ => exact ⟨e, _, hc, trivial, not_false, Or.inr (Or.inl (Option.some.inj h).symm)⟩
  · next e hc _ => exact ⟨e, _, hc, trivial, not_false, Or.inr (Or.inr (Option.some.inj h).symm)⟩
  · cases h

theorem cleanup_inv (h : callStep N s c .cleanup = some t) :
    ∃ e, s.calls c = some ⟨e, .cleaning⟩ ∧
      t = { s.goto c e .reselecting with table := (cleanupExpiredSocks5Configs s.table s.clock).2 } := by
  simp only [callStep] at h
  split at h
  · next e hc => exact ⟨e, hc, (Option.some.inj h).symm⟩
  · cases h

theorem mark_inv {nowMs : Int} (h : callStep N s c (.mark nowMs) = some t) :
    ∃ e config, s.calls c = some ⟨e, .marking config⟩ ∧
      t = { (s.goto c e (.leased config)).grant c config e with
              table := markUnavailable s.table config e nowMs, lock := none } := by
  simp only [callStep] at h
  split at h
  · next e config hc => exact ⟨e, config, hc, (Option.some.inj h).symm⟩
  · cases h

theorem dbError_inv {error : String} (h : callStep N s c (.dbError error) = some t) :
    ∃ e pc, s.calls c = some ⟨e, pc⟩ ∧ ¬pc.Leased ∧
      ((¬pc.Locked ∧ t = s.goto c e (.failed (.db error))) ∨
        (pc.Locked ∧ t = { s.goto c e (.failed (.db error)) with lock := none })) := by
  simp only [callStep] at h
  split at h
  · next e hc => exact ⟨e, _, hc, not_false, Or.inl ⟨not_false, (Option.some.inj h).symm⟩⟩
  · next e _ hc => exact ⟨e, _, hc, not_false, Or.inl ⟨not_false, (Option.some.inj h).symm⟩⟩
  · next e hc => exact ⟨e, _, hc, not_false, Or.inr ⟨trivial, (Option.some.inj h).symm⟩⟩
  · next e hc => exact ⟨e, _, hc, not_false, Or.inr ⟨trivial, (Option.some.inj h).symm⟩⟩
  · next e hc => exact ⟨e, _, hc, not_false, Or.inr ⟨trivial, (Option.some.inj h).symm⟩⟩
  · next e _ hc => exact ⟨e, _, hc, not_false, Or.inr ⟨trivial, (Option.some.inj h).symm⟩⟩
  · cases h

theorem tick_inv {now : Int} (h : SockSys.step N s (.tick now) = some t) :
    s.clock ≤ now ∧ t = { s with clock := now } := by
  obtain ⟨hle, h⟩ := Option.ite_none_right_eq_some.mp (show ite _ _ _ = some t from h)
  exact ⟨hle, (Option.some.inj h).symm⟩

theorem extend_inv {username : String} {expected new : Int} (h : SockSys.step N s (.extend username expected new) = some t) :
    t = s ∨ ∃ r, readSocks5ConfigByUsername s.table username = some r ∧ r.expiresAt = expected ∧ s.clock < r.expiresAt ∧
      t = { s.prolong username new with
              table := s.table.updateWhere (socks5ExtensionMatches username expected s.clock)
                (extendedTo new s.clock) } := by
  simp only [SockSys.step] at h
  split at h
  · next l table hext =>
    obtain ⟨r, hr, hexp, hlt, -, rfl⟩ := extendSocks5Lease_ok hext
    exact Or.inr ⟨r, hr, hexp, hlt, (Option.some.inj h).symm⟩
  · next error table hext =>
    obtain ⟨rfl, -⟩ := extendSocks5Lease_error hext
    exact Or.inl (Option.some.inj h).symm

theorem callStep_clock {a : SockCallAct} (h : callStep N s c a = some t) : t.clock = s.clock := by
  cases a with
  | start priority e => obtain ⟨-, rfl | rfl⟩ := start_inv h <;> rfl
  | pick choice => obtain ⟨e, -, rfl | ⟨config, -, rfl⟩⟩ := pick_inv h <;> rfl
  | handOut nowMs =>
    obtain ⟨e, config, -, rfl⟩ := handOut_inv h
    rfl
  | acquire =>
    obtain ⟨e, -, -, rfl⟩ := acquire_inv h
    rfl
  | lockTimeout =>
    obtain ⟨e, -, rfl⟩ := lockTimeout_inv h
    rfl
  | select => obtain ⟨e, pc, -, -, -, ⟨config, -, rfl⟩ | rfl | rfl⟩ := select_inv h <;> rfl
  | cleanup =>
    obtain ⟨e, -, rfl⟩ := cleanup_inv h
    rfl
  | mark nowMs =>
    obtain ⟨e, config, -, rfl⟩ := mark_inv h
    rfl
  | dbError error => obtain ⟨e, pc, -, -, ⟨-, rfl⟩ | ⟨-, rfl⟩⟩ := dbError_inv h <;> rfl

/-- A step moves its own call on, which keeps asking for the expiry that it started with. -/
theorem callStep_calls {a : SockCallAct} (h : callStep N s c a = some t) :
    ∃ e pc, t.calls = (s.goto c e pc).calls ∧
      ((∃ pc₀, s.calls c = some ⟨e, pc₀⟩) ∨ ∃ priority, a = .start priority e) := by
  cases a with
  | start priority e => obtain ⟨-, rfl | rfl⟩ := start_inv h <;> exact ⟨e, _, rfl, Or.inr ⟨priority, rfl⟩⟩
  | pick choice =>
    obtain ⟨e, hc, rfl | ⟨config, -, rfl⟩⟩ := pick_inv h <;> exact ⟨e, _, rfl, Or.inl ⟨_, hc⟩⟩
  | handOut nowMs =>
    obtain ⟨e, config, hc, rfl⟩ := handOut_inv h
    exact ⟨e, _, rfl, Or.inl ⟨_, hc⟩⟩
  | acquire =>
    obtain ⟨e, hc, -, rfl⟩ := acquire_inv h
    exact ⟨e, _, rfl, Or.inl ⟨_, hc⟩⟩
  | lockTimeout =>
    obtain ⟨e, hc, rfl⟩ := lockTimeout_inv h
    exact ⟨e, _, rfl, Or.inl ⟨_, hc⟩⟩
  | select =>
    obtain ⟨e, pc, hc, -, -, ⟨config, -, rfl⟩ | rfl | rfl⟩ := select_inv h <;> exact ⟨e, _, rfl, Or.inl ⟨_, hc⟩⟩
  | cleanup =>
    obtain ⟨e, hc, rfl⟩ := cleanup_inv h
    exact ⟨e, _, rfl, Or.inl ⟨_, hc⟩⟩
  | mark nowMs =>
    obtain ⟨e, config, hc, rfl⟩ := mark_inv h
    exact ⟨e, _, rfl, Or.inl ⟨_, hc⟩⟩
  | dbError error =>
    obtain ⟨e, pc, hc, -, ⟨-, rfl⟩ | ⟨-, rfl⟩⟩ := dbError_inv h <;> exact ⟨e, _, rfl, Or.inl ⟨_, hc⟩⟩

theorem clock_le {a : SockAct} (h : s.step N a = some t) : s.clock ≤ t.clock := by
  cases a with
  | tick now =>
    obtain ⟨hle, rfl⟩ := tick_inv h
    exact hle
  | call c a => exact (callStep_clock h).ge
  | extend username expected new =>
    obtain rfl | ⟨r, -, -, -, rfl⟩ := extend_inv h <;> exact le_rfl
  | cleanup =>
    cases h
    exact le_rfl
  | reload =>
    cases h
    exact le_rfl

end SockStep

/-- The step may set the expiry of a row: it is the UPDATE of an allocation, or an extension. -/
def SockAct.Sets : SockAct → Prop
  | .call _ (.handOut _) | .call _ (.mark _) | .extend .. => True
  | _ => False

/-- What a step does to the rows. -/
inductive SlotsStep (s : SockSys) : SockAct → Socks5Table → Prop
  | same {a : SockAct} : ¬a.Sets → SlotsStep s a s.table
  | cleanup {a : SockAct} : ¬a.Sets → SlotsStep s a (cleanupExpiredSocks5Configs s.table s.clock).2
  | refused {u : String} {expected new : Int} :
      (∀ r, readSocks5ConfigByUsername s.table u = some r → ¬(r.expiresAt = expected ∧ s.clock < r.expiresAt)) →
      SlotsStep s (.extend u expected new) s.table
  | extend {u : String} {new : Int} {r : Socks5Config} : readSocks5ConfigByUsername s.table u = some r →
      s.clock < r.expiresAt → SlotsStep s (.extend u r.expiresAt new)
        (s.table.updateWhere (socks5ExtensionMatches u r.expiresAt s.clock) (extendedTo new s.clock))
  | handOut {c : ℕ} {nowMs e : Int} {config : Socks5Config} : s.calls c = some ⟨e, .updating config⟩ →
      SlotsStep s (.call c (.handOut nowMs)) (updatePriority s.table config e nowMs)
  | mark {c : ℕ} {nowMs e : Int} {config : Socks5Config} : s.calls c = some ⟨e, .marking config⟩ →
      SlotsStep s (.call c (.mark nowMs)) (markUnavailable s.table config e nowMs)

theorem slotsStep {N : Int} {s t : SockSys} {a : SockAct} (h : s.step N a = some t) : SlotsStep s a t.table := by
  cases a with
  | tick now =>
    obtain ⟨-, rfl⟩ := SockStep.tick_inv h
    exact .same not_false
  | extend username expected new =>
    simp only [SockSys.step] at h
    split at h
    · next l table hext =>
      obtain ⟨r, hr, rfl, hlt, -, rfl⟩ := extendSocks5Lease_ok hext
      cases h
      exact .extend hr hlt
    · next error table hext =>
      have hno := fun r => extendSocks5Lease_refused (r := r) hext
      obtain ⟨rfl, -⟩ := extendSocks5Lease_error hext
      cases h
      exact .refused hno
  | cleanup =>
    cases h
    exact .cleanup not_false
  | reload =>
    cases h
    exact .same not_false
  | call c a =>
    replace h : s.callStep N c a = some t := h
    cases a with
    | start priority e =>
      obtain ⟨-, rfl | rfl⟩ := SockStep.start_inv h <;> exact .same not_false
    | pick choice =>
      obtain ⟨e, -, rfl | ⟨config, -, rfl⟩⟩ := SockStep.pick_inv h <;> exact .same not_false
    | handOut nowMs =>
      obtain ⟨e, config, hc, rfl⟩ := SockStep.handOut_inv h
      exact .handOut hc
    | acquire =>
      obtain ⟨e, -, -, rfl⟩ := SockStep.acquire_inv h
      exact .same not_false
    | lockTimeout =>
      obtain ⟨e, -, rfl⟩ := SockStep.lockTimeout_inv h
      exact .same not_false
    | select =>
      obtain ⟨e, pc, -, -, -, ⟨config, -, rfl⟩ | rfl | rfl⟩ := SockStep.select_inv h <;> exact .same not_false
    | cleanup =>
      obtain ⟨e, -, rfl⟩ := SockStep.cleanup_inv h
      exact .cleanup not_false
    | mark nowMs =>
      obtain ⟨e, config, hc, rfl⟩ := SockStep.mark_inv h
      exact .mark hc
    | dbError error =>
      obtain ⟨e, pc, -, -, ⟨-, rfl⟩ | ⟨-, rfl⟩⟩ := SockStep.dbError_inv h <;> exact .same not_false

end TpnWorker
