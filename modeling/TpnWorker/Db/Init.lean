import Mathlib.Data.List.Dedup
import TpnWorker.Db.Socks5
import TpnWorker.Lib.Newest

/-! The slots at a start (`init_database` of `src/db/init.rs`). A table of an older version may have a username twice, so that
    the unique index on the usernames is refused; then the duplicates are deleted and the index is tried again. -/

namespace TpnWorker
open Keyed

/-- The table `worker_socks5_configs` without its unique index. -/
abbrev Socks5Rows := Table Int Socks5Config Socks5Config.id

/-- The outcomes of the two attempts at the index and of the statement between them, apart from the constraint itself. -/
structure IndexEnv where
  create : Except String Unit
  delete : Except String Unit
  retry : Except String Unit

/-- `CREATE UNIQUE INDEX ... ON worker_socks5_configs (username)`. -/
def createUsernameIndex (t : Socks5Rows) (outcome : Except String Unit) : Option Socks5Table :=
  match outcome with
  | .error _ => none
  | .ok () => if unique : (t.rows.map (·.username)).Nodup then some ⟨t, unique⟩ else none

/-- `SELECT MAX(id) FROM worker_socks5_configs GROUP BY username`. -/
def maxIds (t : Socks5Rows) : List Int :=
  (t.rows.map (·.username)).dedup.filterMap fun username =>
    ((t.rows.filter fun r => decide (r.username = username)).map (·.id)).max?

/-- Delete duplicates keeping the highest id. -/
def deleteDuplicates (t : Socks5Rows) : Socks5Rows := t.deleteWhere fun r => !(maxIds t).contains r.id

/-- The unique index on the usernames, or the table that does not get one; the errors are only logged. -/
def ensureUsernameIndex (t : Socks5Rows) (env : IndexEnv) : Except Socks5Rows Socks5Table :=
  match createUsernameIndex t env.create with
  | some t => .ok t
  | none =>
    let t := match env.delete with
      | .ok () => deleteDuplicates t
      | .error _ => t
    match createUsernameIndex t env.retry with
    | some t => .ok t
    | none => .error t

/-- The rows that are left. -/
def indexedRows : Except Socks5Rows Socks5Table → Socks5Rows
  | .ok t => t.table
  | .error t => t

section Index
variable {t : Socks5Rows} {t' : Socks5Table} {r : Socks5Config} {outcome : Except String Unit}

theorem createUsernameIndex_eq_some (h : createUsernameIndex t outcome = some t') : t'.table = t := by
  unfold createUsernameIndex at h
  split at h
  · cases h
  · split at h
    · cases h
      rfl
    · cases h

/-- The rows with the greatest ids of their usernames are the newest ones. -/
theorem mem_maxIds_iff (hr : r ∈ t.rows) : r.id ∈ maxIds t ↔ t.IsNewest (·.username) r := by
  simp only [maxIds, List.mem_filterMap, List.mem_dedup, List.max?_eq_some_iff]
  constructor
  · rintro ⟨username, -, hmem, hmax⟩ r' hr' heq
    obtain ⟨r₀, hr₀, hid⟩ := List.mem_map.mp hmem
    obtain ⟨hr₀, hname⟩ := List.mem_filter.mp hr₀
    obtain rfl : r₀ = r := Table.eq_of_key hr₀ hr hid
    exact hmax _ (List.mem_map_of_mem (List.mem_filter.mpr ⟨hr', decide_eq_true (heq.trans (of_decide_eq_true hname))⟩))
  · intro hnewest
    refine ⟨r.username, List.mem_map_of_mem hr, List.mem_map_of_mem (List.mem_filter.mpr ⟨hr, by simp⟩), ?_⟩
    intro id hid
    obtain ⟨r', hr', rfl⟩ := List.mem_map.mp hid
    obtain ⟨hr', hname⟩ := List.mem_filter.mp hr'
    exact hnewest r' hr' (of_decide_eq_true hname)

theorem deleteDuplicates_eq (t : Socks5Rows) : deleteDuplicates t = t.keepNewest (·.username) := by
  refine Table.ext (List.filter_congr fun r hr => ?_)
  rw [Bool.not_not, Bool.not_not, List.contains_eq_mem, decide_eq_decide]
  exact mem_maxIds_iff hr

/-- The rows that are left are the ones from before, or the newest of them. -/
theorem indexedRows_cases (t : Socks5Rows) (env : IndexEnv) :
    indexedRows (ensureUsernameIndex t env) = t ∨ indexedRows (ensureUsernameIndex t env) = t.keepNewest (·.username) := by
  rw [← deleteDuplicates_eq]
  unfold ensureUsernameIndex
  split
  · next hcreate => exact Or.inl (createUsernameIndex_eq_some hcreate)
  · dsimp only
    split
    · next hretry =>
      have htable := createUsernameIndex_eq_some hretry
      split at htable
      · exact Or.inr htable
      · exact Or.inl htable
    · cases env.delete with
      | ok _ => exact Or.inr rfl
      | error _ => exact Or.inl rfl

end Index

end TpnWorker
