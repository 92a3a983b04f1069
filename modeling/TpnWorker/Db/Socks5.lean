import Mathlib.Data.Int.Order.Basic
import TpnWorker.Error
import TpnWorker.Lib.Table

/-! The table `worker_socks5_configs` and the statements of `src/db/socks5.rs`. The priority pool is the first
    `priority_slots` available rows in order of their id; the rows behind it are leased exclusively. -/

namespace TpnWorker
open Keyed

/-- SOCKS5 proxy configuration record. -/
structure Socks5Config where
  id : Int
  ipAddress : String
  port : Int
  username : String
  password : String
  available : Bool
  expiresAt : Int
  updated : Int
deriving DecidableEq, Repr

/-- The table, with the unique index on the username. -/
structure Socks5Table where
  table : Table Int Socks5Config Socks5Config.id
  unique : (table.rows.map (·.username)).Nodup

/-- What an UPDATE sets in a row, other than its id and its username. -/
structure Socks5Update where
  set : Socks5Config → Socks5Config
  id_set : ∀ r, (set r).id = r.id := by intro _; rfl
  username_set : ∀ r, (set r).username = r.username := by intro _; rfl

namespace Socks5Table

def rows (t : Socks5Table) : List Socks5Config := t.table.rows

/-- The usernames in order of the id. -/
def names (t : Socks5Table) : List String := t.rows.map (·.username)

/-- `UPDATE worker_socks5_configs SET u WHERE p`. -/
def updateWhere (t : Socks5Table) (p : Socks5Config → Bool) (u : Socks5Update) : Socks5Table :=
  ⟨t.table.updateWhere p u.set u.id_set, by rw [Table.map_updateWhere u.id_set u.username_set]; exact t.unique⟩

/-- The available rows in order of their id, from `offset` on and at most `limit`. -/
def selectAvailable (t : Socks5Table) (limit offset : Int) : List Socks5Config :=
  page limit offset (t.rows.filter (·.available))

end Socks5Table

/-- Two free slots, for runs on fixed inputs. -/
def Socks5Table.sample : Socks5Table where
  table :=
    { rows := [⟨1, "203.0.113.7", 1080, "u_a", "p_a", true, 0, 0⟩, ⟨2, "203.0.113.7", 1080, "u_b", "p_b", true, 0, 0⟩]
      sorted := by decide }
  unique := by decide

/-- SOCKS5 lease extension result. -/
structure Socks5LeaseExtension where
  username : String
  expiresAt : Int
deriving DecidableEq, Repr

/-! ### The statements -/

/-- The SELECT of the priority pool. -/
def priorityConfigs (t : Socks5Table) (prioritySlots : Int) : List Socks5Config := t.selectAvailable prioritySlots 0

/-- The SELECT of an exclusive slot. -/
def nonPriorityConfig (t : Socks5Table) (prioritySlots : Int) : Option Socks5Config :=
  (t.selectAvailable 1 prioritySlots).head?

/-- The UPDATE of a priority lease, which leaves the slot available. -/
def updatePriority (t : Socks5Table) (config : Socks5Config) (expiresAt nowMs : Int) : Socks5Table :=
  t.updateWhere (fun r => decide (r.username = config.username))
    { set := fun r => { r with expiresAt := expiresAt, updated := nowMs } }

/-- The UPDATE of an exclusive lease. -/
def markUnavailable (t : Socks5Table) (config : Socks5Config) (expiresAt nowMs : Int) : Socks5Table :=
  t.updateWhere (fun r => decide (r.username = config.username ∧ r.password = config.password))
    { set := fun r => { r with available := false, expiresAt := expiresAt, updated := nowMs } }

/-- Release the slots whose expiry has passed, with the number of slots released. -/
def cleanupExpiredSocks5Configs (t : Socks5Table) (nowMs : Int) : ℕ × Socks5Table :=
  let expired (r : Socks5Config) : Bool := decide (0 < r.expiresAt ∧ r.expiresAt ≤ nowMs)
  (t.table.affected expired, t.updateWhere expired { set := fun r => { r with available := true, expiresAt := 0 } })

def noPriorityConfigs : AppError := .leaseUnavailable "No priority SOCKS5 configs available"

def noNonPriorityConfigs : AppError := .leaseUnavailable "No non-priority SOCKS5 configs available"

/-- The message of a refused extension. -/
def socks5ExtensionFailed (username : String) : AppError :=
  .leaseUnavailable s!"SOCKS5 lease extension failed for {username}: not found, expired, or reallocated"

/-- `WHERE username = .. AND expires_at = .. AND expires_at > now_ms`. -/
def socks5ExtensionMatches (username : String) (expectedExpiresAt nowMs : Int) (r : Socks5Config) : Bool :=
  decide (r.username = username ∧ r.expiresAt = expectedExpiresAt ∧ nowMs < r.expiresAt)

/-- What an extension sets. -/
def extendedTo (newExpiresAt nowMs : Int) : Socks5Update :=
  { set := fun r => { r with expiresAt := newExpiresAt, updated := nowMs } }

/-- Extend a lease whose stored expiry is the expected one and has not passed. -/
def extendSocks5Lease (t : Socks5Table) (username : String) (expectedExpiresAt newExpiresAt nowMs : Int) :
    Except AppError Socks5LeaseExtension × Socks5Table :=
  let matching := socks5ExtensionMatches username expectedExpiresAt nowMs
  let t' := t.updateWhere matching (extendedTo newExpiresAt nowMs)
  if t.table.affected matching = 0 then (.error (socks5ExtensionFailed username), t')
  else (.ok ⟨username, newExpiresAt⟩, t')

def readSocks5ConfigByUsername (t : Socks5Table) (username : String) : Option Socks5Config :=
  t.table.findBy (·.username) username

/-- The number of available slots behind the first `skipSlots`. -/
def countAvailableSocks (t : Socks5Table) (skipSlots : Int) : ℕ := (t.selectAvailable (-1) skipSlots).length

/-! ### Writing a batch -/

/-- What `write_socks` meets: the clock, the AUTOINCREMENT sequence of the table, and the statement that fails, if any
    does: the number of statements before it, with the error. -/
structure WriteEnv where
  nowMs : Int
  sequence : Int
  fault : Option (ℕ × String)

/-- The AUTOINCREMENT id of the next row. -/
def Socks5Table.nextId (t : Socks5Table) (sequence : Int) : Int := (t.rows.map (·.id)).foldr max sequence + 1

theorem Socks5Table.lt_nextId {t : Socks5Table} {r : Socks5Config} (sequence : Int) (h : r ∈ t.rows) :
    r.id < t.nextId sequence := Table.lt_nextKey sequence h

/-- `INSERT ... ON CONFLICT (username) DO UPDATE`: an existing row gets the password and keeps the rest. -/
def upsertSock (nowMs sequence : Int) (t : Socks5Table) (sock : Socks5Config) : Socks5Table :=
  if hname : sock.username ∈ t.names then
    t.updateWhere (fun r => decide (r.username = sock.username))
      { set := fun r => { r with password := sock.password, updated := nowMs } }
  else
    { table := t.table.append { sock with id := t.nextId sequence, updated := nowMs } fun _ hr =>
        Socks5Table.lt_nextId sequence hr
      unique := by
        rw [Table.append, List.map_append, List.map_singleton]
        exact List.nodup_append.mpr ⟨t.unique, List.nodup_singleton _, fun _ ha _ hb heq =>
          hname (List.mem_singleton.mp hb ▸ heq ▸ ha)⟩ }

/-- The upserts of a batch. Each draws the next id of the sequence, also one that then updates a row. -/
def upsertSocks (nowMs : Int) : Int → Socks5Table → List Socks5Config → Socks5Table
  | _, t, [] => t
  | sequence, t, sock :: socks => upsertSocks nowMs (t.nextId sequence) (upsertSock nowMs sequence t sock) socks

/-- `DELETE FROM worker_socks5_configs WHERE username NOT IN (..)`. -/
def deleteOthers (t : Socks5Table) (usernames : List String) : Socks5Table where
  table := t.table.deleteWhere fun r => !usernames.contains r.username
  unique := t.unique.sublist (List.filter_sublist.map _)

/-- Batch upsert of configs; the rows of other users are deleted, unless the batch is empty. -/
def writeSocks (t : Socks5Table) (socks : List Socks5Config) (env : WriteEnv) : Except AppError Unit × Socks5Table :=
  if socks = [] then (.ok (), t)
  else
    match env.fault with
    | some (n, e) => (.error (.db e), upsertSocks env.nowMs env.sequence t (socks.take n))
    | none => (.ok (), deleteOthers (upsertSocks env.nowMs env.sequence t socks) (socks.map (·.username)))

/-! ### Allocation, run to completion -/

/-- What one allocation meets: the clock of its cleanup and of its UPDATE, and the random choice. -/
structure Socks5Env where
  cleanupMs : Int
  nowMs : Int
  choice : ℕ

/-- Priority pool: shared slots, never marked unavailable. -/
def getSocks5ConfigPriority (t : Socks5Table) (expiresAt prioritySlots : Int) (env : Socks5Env) :
    Except AppError Socks5Config × Socks5Table :=
  let configs := priorityConfigs t prioritySlots
  match configs[env.choice % configs.length]? with
  | none => (.error noPriorityConfigs, t)
  | some config => (.ok config, updatePriority t config expiresAt env.nowMs)

/-- Non-priority pool: exclusive allocation behind the priority slots. -/
def getSocks5ConfigNonPriority (t : Socks5Table) (expiresAt prioritySlots : Int) (env : Socks5Env) :
    Except AppError Socks5Config × Socks5Table :=
  match nonPriorityConfig t prioritySlots with
  | some config => (.ok config, markUnavailable t config expiresAt env.nowMs)
  | none =>
    let t := (cleanupExpiredSocks5Configs t env.cleanupMs).2
    match nonPriorityConfig t prioritySlots with
    | some config => (.ok config, markUnavailable t config expiresAt env.nowMs)
    | none => (.error noNonPriorityConfigs, t)

def getSocks5Config (t : Socks5Table) (expiresAt : Int) (priority : Bool) (prioritySlots : Int) (env : Socks5Env) :
    Except AppError Socks5Config × Socks5Table :=
  if priority then getSocks5ConfigPriority t expiresAt prioritySlots env
  else getSocks5ConfigNonPriority t expiresAt prioritySlots env

/-! ### Rows after a statement -/

namespace Socks5Table
variable {t : Socks5Table} {p : Socks5Config → Bool} {u : Socks5Update} {r : Socks5Config} {n : ℕ} {username : String}

@[simp] theorem names_updateWhere : (t.updateWhere p u).names = t.names :=
  Table.map_updateWhere u.id_set u.username_set

theorem mem_take_updateWhere (h : r ∈ (t.updateWhere p u).rows.take n) :
    ∃ r₀ ∈ t.rows.take n, r = if p r₀ then u.set r₀ else r₀ := by
  have hrows : (t.updateWhere p u).rows = t.rows.map fun r => if p r then u.set r else r := rfl
  rw [hrows, ← List.map_take] at h
  obtain ⟨r₀, hr₀, rfl⟩ := List.mem_map.mp h
  exact ⟨r₀, hr₀, rfl⟩

/-- An UPDATE after which its rows no longer match `q` takes them out of a selection by `q`. -/
theorem filter_updateWhere {q : Socks5Config → Bool} (hq : ∀ r, q (u.set r) = false) :
    (t.updateWhere p u).rows.filter q = t.rows.filter fun r => q r && !p r := by
  have hrows : (t.updateWhere p u).rows = t.rows.map fun r => if p r then u.set r else r := rfl
  rw [hrows]
  induction t.rows with
  | nil => rfl
  | cons r rows ih =>
    rw [List.map_cons, List.filter_cons, List.filter_cons, ih]
    cases hp : p r <;> simp [hq]

theorem read_updateWhere (username : String) :
    readSocks5ConfigByUsername (t.updateWhere p u) username =
      (readSocks5ConfigByUsername t username).map fun r => if p r then u.set r else r :=
  Table.findBy_updateWhere u.id_set u.username_set username

theorem read_updateWhere_of (h : readSocks5ConfigByUsername t username = some r) :
    readSocks5ConfigByUsername (t.updateWhere p u) username = some (if p r then u.set r else r) := by
  rw [read_updateWhere, h, Option.map_some]

theorem read_eq_some_iff :
    readSocks5ConfigByUsername t username = some r ↔ r ∈ t.rows ∧ r.username = username :=
  Table.findBy_eq_some_iff t.unique

theorem mem_of_selectAvailable {limit offset : Int} (h : r ∈ t.selectAvailable limit offset) :
    r ∈ t.rows ∧ r.available = true := List.mem_filter.mp (mem_of_mem_page h)

theorem read_upsertSock (nowMs sequence : Int) (t : Socks5Table) (sock : Socks5Config) (username : String) :
    readSocks5ConfigByUsername (upsertSock nowMs sequence t sock) username =
      if username = sock.username then
        some (((readSocks5ConfigByUsername t username).map fun r =>
          { r with password := sock.password, updated := nowMs }).getD
            { sock with id := t.nextId sequence, updated := nowMs })
      else readSocks5ConfigByUsername t username := by
  rw [upsertSock]
  split
  · next hname =>
    obtain ⟨r₀, hr₀, hr₀name⟩ := List.mem_map.mp hname
    rw [read_updateWhere]
    split
    · next hu =>
      subst hu
      rw [read_eq_some_iff.mpr ⟨hr₀, hr₀name⟩, Option.map_some, if_pos (decide_eq_true hr₀name)]
      rfl
    · next hu =>
      cases hr : readSocks5ConfigByUsername t username with
      | none => rfl
      | some r =>
        have hne : r.username ≠ sock.username := fun heq => hu ((read_eq_some_iff.mp hr).2.symm.trans heq)
        rw [Option.map_some, if_neg (by simpa using hne)]
  · next hname =>
    rw [readSocks5ConfigByUsername, Table.findBy_append]
    split
    · next hu =>
      subst hu
      have hnone : readSocks5ConfigByUsername t sock.username = none := by
        cases hr : readSocks5ConfigByUsername t sock.username with
        | none => rfl
        | some r =>
          obtain ⟨hmem, hrname⟩ := read_eq_some_iff.mp hr
          exact absurd (List.mem_map.mpr ⟨r, hmem, hrname⟩) hname
      rw [show t.table.findBy _ _ = none from hnone, hnone, Option.none_or, if_pos rfl]
      rfl
    · next hu =>
      rw [if_neg (Ne.symm hu), Option.or_none]
      rfl

section Columns
variable {γ : Type} {col : Socks5Config → γ} {nowMs sequence : Int} {sock : Socks5Config} {socks : List Socks5Config}
  (hset : ∀ (r : Socks5Config) password updated, col { r with password, updated } = col r)
  (hid : ∀ (r : Socks5Config) id updated, col { r with id, updated } = col r)
include hset hid

/-- A column that an upsert does not set is kept in a row that exists, and taken from the config in a new one. -/
theorem map_read_upsertSock : (readSocks5ConfigByUsername (upsertSock nowMs sequence t sock) username).map col =
    ((readSocks5ConfigByUsername t username).map col).or (if sock.username = username then some (col sock) else none) := by
  rw [read_upsertSock]
  by_cases hname : username = sock.username
  · rw [if_pos hname, if_pos hname.symm]
    cases readSocks5ConfigByUsername t username with
    | none => exact congrArg some (hid sock _ _)
    | some r => exact congrArg some (hset r _ _)
  · rw [if_neg hname, if_neg (Ne.symm hname), Option.or_none]

/-- Over a batch, a user without a row has such a column from its first config. -/
theorem map_read_upsertSocks : (readSocks5ConfigByUsername (upsertSocks nowMs sequence t socks) username).map col =
    ((readSocks5ConfigByUsername t username).map col).or
      ((socks.find? fun sock => decide (sock.username = username)).map col) := by
  induction socks generalizing t sequence with
  | nil => rw [upsertSocks, List.find?_nil, Option.map_none, Option.or_none]
  | cons sock socks ih =>
    rw [upsertSocks, ih, map_read_upsertSock hset hid, Option.or_assoc, List.find?_cons]
    congr 1
    by_cases hname : sock.username = username
    · rw [if_pos hname, decide_eq_true hname]
      rfl
    · rw [if_neg hname, decide_eq_false hname, Option.none_or]

end Columns

theorem read_deleteOthers (t : Socks5Table) (usernames : List String) (username : String) :
    readSocks5ConfigByUsername (deleteOthers t usernames) username =
      if username ∈ usernames then readSocks5ConfigByUsername t username else none := by
  rw [readSocks5ConfigByUsername, deleteOthers,
    Table.findBy_deleteWhere (q := fun name => !usernames.contains name) fun _ => rfl]
  by_cases hu : username ∈ usernames
  · rw [if_pos hu, if_neg (by simpa using hu)]
    rfl
  · rw [if_neg hu, if_pos (by simpa using hu)]

end Socks5Table

/-- A successful extension found the row unexpired with the expected expiry, and it is the one row that
    changes. -/
theorem extendSocks5Lease_ok {t t' : Socks5Table} {username : String} {expected new nowMs : Int}
    {l : Socks5LeaseExtension} (h : extendSocks5Lease t username expected new nowMs = (.ok l, t')) :
    ∃ r, readSocks5ConfigByUsername t username = some r ∧ r.expiresAt = expected ∧ nowMs < r.expiresAt ∧
      l = ⟨username, new⟩ ∧
      t' = t.updateWhere (socks5ExtensionMatches username expected nowMs) (extendedTo new nowMs) := by
  simp only [extendSocks5Lease] at h
  split at h
  · cases h
  · next haff =>
    obtain ⟨hl, ht⟩ := Prod.mk.inj h
    rw [Table.affected_eq_zero_iff] at haff
    simp only [not_forall, Bool.not_eq_false] at haff
    obtain ⟨r, hr, hmatch⟩ := haff
    obtain ⟨hname, hexp, hnow⟩ : r.username = username ∧ r.expiresAt = expected ∧ nowMs < r.expiresAt := by
      simpa [socks5ExtensionMatches] using hmatch
    exact ⟨r, Socks5Table.read_eq_some_iff.mpr ⟨hr, hname⟩, hexp, hnow, (Except.ok.inj hl).symm, ht.symm⟩

theorem extendSocks5Lease_error {t t' : Socks5Table} {username : String} {expected new nowMs : Int} {e : AppError}
    (h : extendSocks5Lease t username expected new nowMs = (.error e, t')) :
    t' = t ∧ e = socks5ExtensionFailed username := by
  simp only [extendSocks5Lease] at h
  split at h
  · next haff =>
    obtain ⟨he, ht⟩ := Prod.mk.inj h
    refine ⟨?_, (Except.error.inj he).symm⟩
    rw [← ht]
    obtain ⟨table, unique⟩ := t
    simp only [Socks5Table.updateWhere, Table.updateWhere_eq_self haff]
  · cases h

/-- A refused extension found no unexpired row with the expected expiry. -/
theorem extendSocks5Lease_refused {t t' : Socks5Table} {username : String} {expected new nowMs : Int} {e : AppError}
    {r : Socks5Config} (h : extendSocks5Lease t username expected new nowMs = (.error e, t'))
    (hr : readSocks5ConfigByUsername t username = some r) : ¬(r.expiresAt = expected ∧ nowMs < r.expiresAt) := by
  simp only [extendSocks5Lease] at h
  split at h
  · next haff =>
    obtain ⟨hmem, hname⟩ := Socks5Table.read_eq_some_iff.mp hr
    have hnot := Table.affected_eq_zero_iff.mp haff r hmem
    rw [socks5ExtensionMatches, decide_eq_false_iff_not] at hnot
    exact fun hmatch => hnot ⟨hname, hmatch⟩
  · cases h

end TpnWorker
