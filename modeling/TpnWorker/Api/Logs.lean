import TpnWorker.Lib.Ring

/-! The log endpoint (`src/api/logs.rs`), a tail-style reader of the log file. -/

namespace TpnWorker
open Ring

def logFile : String := "/tmp/tpn-worker.log"

def defaultLines : ℕ := 100

def maxLines : ℕ := 1000

structure LogQuery where
  lines : Option ℕ

structure LogResponse where
  success : Bool
  lines : List String
  count : ℕ
  file : Option String
  error : Option String
deriving DecidableEq

/-- The number of lines that a query asks for. -/
def LogQuery.limit (q : LogQuery) : ℕ := min (q.lines.getD defaultLines) maxLines

/-- The loop over the lines of the reader, which ends at the first error. -/
def readRing (n : ℕ) (ring : List String) : List (Except String String) → List String
  | [] => ring
  | .ok l :: rest => readRing n (push n ring l) rest
  | .error _ :: _ => ring

/-- GET /api/logs?lines=N, on the outcome of opening the file and what its reader yields. -/
def getLogs (file : Except String (List (Except String String))) (q : LogQuery) : LogResponse :=
  match file with
  | .ok reader =>
    let lines := readRing q.limit [] reader
    ⟨true, lines, lines.length, some logFile, none⟩
  | .error e => ⟨false, [], 0, none, some ("Cannot read log file: " ++ e)⟩

theorem readRing_ok (n : ℕ) (ring ls : List String) : readRing n ring (ls.map .ok) = ls.foldl (push n) ring := by
  induction ls generalizing ring with
  | nil => rfl
  | cons l ls ih => exact ih (push n ring l)

end TpnWorker
