import Mathlib.Logic.Function.Basic
import TpnWorker.Error
import TpnWorker.Lib.Decimal
import TpnWorker.Lib.FairLock

/-! Named locks (`src/sync/locks.rs`). A lock is a mutex behind a shared pointer; the manager keeps one for each name that
    was ever asked for. Mutexes are numbered in the order of their creation. A mutex is the queue of its clients, of which
    the first one has the guard: the documentation of tokio's `Mutex` guarantees that it is handed over first in, first
    out, and released when the guard is dropped. -/

namespace TpnWorker

structure NamedLockManager where
  locks : String → Option ℕ
  queues : ℕ → List ℕ
  nextMutex : ℕ

namespace NamedLockManager

def new : NamedLockManager := ⟨fun _ => none, fun _ => [], 0⟩

/-- Get or create a named mutex. -/
def getLock (m : NamedLockManager) (name : String) : ℕ × NamedLockManager :=
  match m.locks name with
  | some mutex => (mutex, m)
  | none =>
    (m.nextMutex, { m with locks := Function.update m.locks name (some m.nextMutex), nextMutex := m.nextMutex + 1 })

/-- The client asks for the guard of the mutex. -/
def lock (m : NamedLockManager) (mutex client : ℕ) : NamedLockManager :=
  { m with queues := Function.update m.queues mutex (FairLock.arrive (m.queues mutex) client) }

/-- The client drops its guard, or the future that waits for it. -/
def unlock (m : NamedLockManager) (mutex client : ℕ) : NamedLockManager :=
  { m with queues := Function.update m.queues mutex (FairLock.leave (m.queues mutex) client) }

/-- The clients of the lock of a name. -/
def clients (m : NamedLockManager) (name : String) : List ℕ := (m.locks name).elim [] m.queues

/-- The answer of `is_locked`: whether `try_lock` fails on a mutex that exists. -/
def isLocked (m : NamedLockManager) (name : String) : Bool := !(m.clients name).isEmpty

theorem getLock_locks (m : NamedLockManager) (name : String) :
    (m.getLock name).2.locks name = some (m.getLock name).1 := by
  unfold getLock
  cases h : m.locks name with
  | some mutex => exact h
  | none => exact Function.update_self ..

end NamedLockManager

/-- The decimals of a fraction in `width` digits, without the zeros at its end. -/
def debugFraction (width fraction : ℕ) : List Char :=
  let digits := Decimal.digits fraction
  let padded := List.replicate (width - digits.length) '0' ++ digits
  let kept := (padded.reverse.dropWhile (· = '0')).reverse
  if fraction = 0 then [] else '.' :: kept

/-- `Debug` of a duration in nanoseconds: in seconds, milliseconds, microseconds or nanoseconds. -/
def debugDuration (nanos : ℕ) : String :=
  let part (unit width : ℕ) (suffix : String) :=
    String.ofList (Decimal.digits (nanos / unit) ++ debugFraction width (nanos % unit)) ++ suffix
  if 1000000000 ≤ nanos then part 1000000000 9 "s"
  else if 1000000 ≤ nanos then part 1000000 6 "ms"
  else if 1000 ≤ nanos then part 1000 3 "µs"
  else part 1 0 "ns"

/-- The error of `with_lock` when the lock is not acquired in time. -/
def acquisitionTimeout (timeout : ℕ) (name : String) : AppError :=
  .internal s!"Lock acquisition timeout after {debugDuration timeout}: {name}"

example : acquisitionTimeout 60000000000 "register_wireguard_lease" =
    .internal "Lock acquisition timeout after 60s: register_wireguard_lease" := by
  decide +kernel

end TpnWorker
