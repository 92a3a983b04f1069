import Mathlib.Data.String.Basic
import TpnWorker.Lib.Table

/-! The table `timestamps` (`src/db/timestamps.rs`), a value under each label with the time of its last update, and its part
    in the periodic cleanup. -/

namespace TpnWorker
open Keyed

structure Timestamp where
  label : String
  timestamp : Int
  updated : Int
deriving DecidableEq, Repr

abbrev TimestampTable := Table String Timestamp Timestamp.label

/-- One year in milliseconds. -/
def stale1YearMs : Int := 365 * 24 * 60 * 60 * 1000

/-- `cleanup_table` on `timestamps`: labels that were not updated for a year are deleted. -/
def cleanupTimestamps (t : TimestampTable) (nowMs : Int) (deleteRows : Except String Unit) : TimestampTable :=
  match deleteRows with
  | .error _ => t
  | .ok () => t.deleteWhere fun r => decide (r.updated < nowMs - stale1YearMs)

end TpnWorker
