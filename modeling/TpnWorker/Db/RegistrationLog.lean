import Mathlib.Data.Int.Order.Basic
import TpnWorker.Lib.Table

/-! The table `worker_registration_log` and the statements of `src/db/registration_log.rs`: a record of every attempt to
    register with the mining pool, of which the newest 200 are kept. -/

namespace TpnWorker
open Keyed

structure Registration where
  id : Int
  miningPoolUrl : String
  success : Int
  statusCode : Int
  responseBody : String
  errorMessage : String
  createdAt : String
deriving DecidableEq, Repr

/-- What a call of `insert_registration` records, and the time at which it does. -/
structure RegistrationAttempt where
  miningPoolUrl : String
  success : Bool
  statusCode : UInt16
  responseBody : String
  errorMessage : String
  now : String

def RegistrationAttempt.row (a : RegistrationAttempt) (id : Int) : Registration where
  id := id
  miningPoolUrl := a.miningPoolUrl
  success := if a.success then 1 else 0
  statusCode := a.statusCode.toNat
  responseBody := a.responseBody
  errorMessage := a.errorMessage
  createdAt := a.now

/-- An entry of the answer, with the flag as a truth value. -/
structure RegistrationEntry where
  id : Int
  miningPoolUrl : String
  success : Bool
  statusCode : Int
  responseBody : String
  errorMessage : String
  createdAt : String
deriving DecidableEq, Repr

def Registration.entry (r : Registration) : RegistrationEntry :=
  ⟨r.id, r.miningPoolUrl, decide (r.success = 1), r.statusCode, r.responseBody, r.errorMessage, r.createdAt⟩

/-- The table, and the largest id that was ever assigned. -/
structure RegistrationLog where
  table : Table Int Registration Registration.id
  sequence : Int

namespace RegistrationLog

def rows (log : RegistrationLog) : List Registration := log.table.rows

def nextId (log : RegistrationLog) : Int := log.table.nextKey log.sequence

/-- The INSERT of an attempt. -/
def insert (log : RegistrationLog) (a : RegistrationAttempt) : RegistrationLog where
  table := log.table.append (a.row log.nextId) fun _ hr => Table.lt_nextKey log.sequence hr
  sequence := log.nextId

/-- `SELECT .. ORDER BY id DESC LIMIT limit`. -/
def newest (log : RegistrationLog) (limit : Int) : List Registration := page limit 0 log.rows.reverse

/-- The DELETE of all but the last 200 entries. -/
def trim (log : RegistrationLog) : RegistrationLog :=
  let kept := (log.newest 200).map (·.id)
  { log with table := log.table.deleteWhere fun r => decide (r.id ∉ kept) }

end RegistrationLog

/-- Insert a registration attempt record and keep the last 200. A statement that fails is only logged. -/
def insertRegistration (inserted trimmed : Except String Unit) (log : RegistrationLog) (a : RegistrationAttempt) :
    RegistrationLog :=
  let log := match inserted with
    | .ok () => log.insert a
    | .error _ => log
  match trimmed with
  | .ok () => log.trim
  | .error _ => log

/-- Fetch recent registration log entries, newest first. -/
def recentRegistrations (rows : Except String Unit) (log : RegistrationLog) (limit : Int) : List RegistrationEntry :=
  match rows with
  | .ok () => (log.newest limit).map Registration.entry
  | .error _ => []

namespace RegistrationLog
variable {log : RegistrationLog} {limit : Int}

@[simp] theorem rows_insert (log : RegistrationLog) (a : RegistrationAttempt) :
    (log.insert a).rows = log.rows ++ [a.row log.nextId] := rfl

theorem newest_eq (h : 0 ≤ limit) : log.newest limit = (log.rows.rtake limit.toNat).reverse := by
  rw [newest, page, if_neg (not_lt.mpr h), Int.toNat_zero, List.drop_zero, List.rtake_eq_reverse_take_reverse,
    List.reverse_reverse]

/-- The last 200 rows are kept. -/
theorem rows_trim (log : RegistrationLog) : log.trim.rows = log.rows.rtake 200 := by
  have hkept : (log.newest 200).map (·.id) = ((log.rows.rtake 200).map (·.id)).reverse := by
    rw [newest_eq (by decide), List.map_reverse]
    rfl
  have hsame : ∀ r : Registration, decide (r.id ∉ (log.newest 200).map (·.id)) =
      decide (r.id ∉ (log.table.rows.rtake 200).map Registration.id) := by
    intro r
    rw [hkept, decide_eq_decide, List.mem_reverse]
    rfl
  rw [rows, trim]
  simp only [hsame]
  exact Table.rows_deleteWhere_notMem_rtake log.table 200

theorem lt_nextId {r : Registration} (h : r ∈ log.rows) : r.id < log.nextId := Table.lt_nextKey log.sequence h

end RegistrationLog

end TpnWorker
