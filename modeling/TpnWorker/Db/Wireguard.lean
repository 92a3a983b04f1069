import Mathlib.Data.Int.Order.Basic
import TpnWorker.Error
import TpnWorker.Lib.Table

/-! The table `worker_wireguard_configs` and the statements of `src/db/wireguard.rs`. A row is one lease: its
    id is the peer id, and the keys stay NULL until the peer is configured. Every function takes the
    clock values and time texts that it reads as arguments. -/

namespace TpnWorker
open Keyed

/-- A row of `worker_wireguard_configs`. -/
structure WgRow where
  id : Int
  expiresAt : Int
  updatedAt : String
  privateKey : Option String
  publicKey : Option String
  presharedKey : Option String
  allowedIp : Option String
deriving DecidableEq, Repr

abbrev WgTable := Table Int WgRow WgRow.id

/-- The two rows have the same expiry. -/
abbrev WgRow.SameExpiry (r₀ r : WgRow) : Prop := r₀.expiresAt = r.expiresAt

theorem WgRow.SameExpiry.refl (r : WgRow) : r.SameExpiry r := rfl

/-- A WireGuard lease record. -/
structure WgLease where
  peerId : Int
  expiresAt : Int
deriving DecidableEq, Repr

/-- A time `now` lies before the expiry: the lease is active (`check_open_leases`). -/
def Unexpired (now expiresAt : Int) : Prop := now < expiresAt

instance (now expiresAt : Int) : Decidable (Unexpired now expiresAt) := inferInstanceAs (Decidable (_ < _))

/-- The recursive `ids(id)` of `try_allocate`: `start_id`, and one more as long as it is below `end_id`. -/
def ids (startId endId : Int) : List Int :=
  (List.range ((endId - startId).toNat + 1)).map fun n : ℕ => startId + (n : Int)

/-- The least id of the range without a row. -/
def selectAvailableId (t : WgTable) (startId endId : Int) : Option Int :=
  (ids startId endId).find? fun id => (t.get? id).isNone

/-- `INSERT INTO worker_wireguard_configs ... ON CONFLICT (id) DO UPDATE`. -/
def insertLease (t : WgTable) (peerId expiresAt : Int) (nowStr : String) : WgTable :=
  t.upsert ⟨peerId, expiresAt, nowStr, none, none, none, none⟩
    fun r => { r with expiresAt := expiresAt, updatedAt := nowStr }

/-- Allocate the least free peer id; `none` if all slots are occupied. -/
def tryAllocate (t : WgTable) (startId endId expiresAt : Int) (nowStr : String) : Option WgLease × WgTable :=
  match selectAvailableId t startId endId with
  | none => (none, t)
  | some peerId => (some ⟨peerId, expiresAt⟩, insertLease t peerId expiresAt nowStr)

/-- `DELETE FROM worker_wireguard_configs WHERE expires_at < cutoff`, with the number of rows deleted. -/
def cleanupExpiredWireguardConfigs (t : WgTable) (nowMs : Int) : ℕ × WgTable :=
  let expired (r : WgRow) : Bool := decide (r.expiresAt < nowMs)
  (t.affected expired, t.deleteWhere expired)

/-- `SELECT MIN(expires_at)` as the diagnostic text of an exhausted pool prints it. -/
def earliestExpiry (t : WgTable) : String :=
  match (t.rows.map (·.expiresAt)).min? with
  | none => "None"
  | some e => s!"Some({e})"

/-- The message of an exhausted pool. -/
def exhausted (t : WgTable) (startId endId : Int) : AppError :=
  .leaseUnavailable
    s!"All WireGuard peer slots ({startId}-{endId}) exhausted. Earliest expiry: {earliestExpiry t}"

/-- Allocate a peer id, after a purge of the expired rows if no id of the range is free. -/
def registerWireguardLease (t : WgTable) (startId endId expiresAt purgeMs : Int) (nowStr : String) :
    Except AppError WgLease × WgTable :=
  match tryAllocate t startId endId expiresAt nowStr with
  | (some lease, t') => (.ok lease, t')
  | (none, t') =>
    let purged := (cleanupExpiredWireguardConfigs t' purgeMs).2
    match tryAllocate purged startId endId expiresAt nowStr with
    | (some lease, t'') => (.ok lease, t'')
    | (none, t'') => (.error (exhausted t'' startId endId), t'')

/-- The message of a refused extension. -/
def extensionFailed (peerId : Int) : AppError :=
  .leaseUnavailable
    s!"WireGuard lease extension failed for peer {peerId}: lease not found, expired, or reallocated"

/-- `WHERE id = .. AND expires_at = .. AND expires_at > now_ms`. -/
def extensionMatches (peerId expectedExpiresAt nowMs : Int) (r : WgRow) : Bool :=
  decide (r.id = peerId ∧ r.expiresAt = expectedExpiresAt ∧ nowMs < r.expiresAt)

/-- Extend a lease whose stored expiry is the expected one and has not passed. -/
def extendWireguardLease (t : WgTable) (peerId expectedExpiresAt newExpiresAt nowMs : Int) (nowStr : String) :
    Except AppError WgLease × WgTable :=
  let matching := extensionMatches peerId expectedExpiresAt nowMs
  let t' := t.updateWhere matching fun r => { r with expiresAt := newExpiresAt, updatedAt := nowStr }
  if t.affected matching = 0 then (.error (extensionFailed peerId), t') else (.ok ⟨peerId, newExpiresAt⟩, t')

/-- Delete a lease; with an expected expiry, only if the row still carries it. -/
def markConfigAsFree (t : WgTable) (peerId : Int) (expectedExpiresAt : Option Int) : WgTable :=
  match expectedExpiresAt with
  | some expected => t.deleteWhere fun r => decide (r.id = peerId ∧ r.expiresAt = expected)
  | none => t.deleteWhere fun r => decide (r.id = peerId)

/-- The ids of the expired rows. -/
def expiredPeerIds (t : WgTable) (nowMs : Int) : List Int :=
  (t.rows.filter fun r => decide (r.expiresAt < nowMs)).map (·.id)

/-- The UPDATE of `store_peer_keys`. -/
def updatePeerKeys (t : WgTable) (peerId : Int) (privateKey publicKey presharedKey allowedIp : String) : WgTable :=
  t.updateWhere (fun r => decide (r.id = peerId)) fun r =>
    { r with privateKey := some privateKey, publicKey := some publicKey,
             presharedKey := some presharedKey, allowedIp := some allowedIp }

/-! ### Enumeration of the range -/

theorem mem_ids {startId endId id : Int} (h : startId ≤ endId) :
    id ∈ ids startId endId ↔ startId ≤ id ∧ id ≤ endId := by
  simp only [ids, List.mem_map, List.mem_range]
  constructor
  · rintro ⟨n, hn, rfl⟩
    omega
  · rintro ⟨h₁, h₂⟩
    exact ⟨(id - startId).toNat, by omega, by omega⟩

theorem selectAvailableId_eq_some {t : WgTable} {startId endId id : Int} (hrange : startId ≤ endId)
    (h : selectAvailableId t startId endId = some id) : t.get? id = none ∧ startId ≤ id ∧ id ≤ endId :=
  ⟨by simpa using List.find?_some h, (mem_ids hrange).mp (List.mem_of_find?_eq_some h)⟩

/-! ### Lookups after a statement -/

theorem get?_insertLease (t : WgTable) (peerId expiresAt : Int) (nowStr : String) (k : Int) :
    (insertLease t peerId expiresAt nowStr).get? k =
      if k = peerId then
        some (((t.get? k).map fun r => { r with expiresAt := expiresAt, updatedAt := nowStr }).getD
          ⟨peerId, expiresAt, nowStr, none, none, none, none⟩)
      else t.get? k :=
  Table.get?_upsert ..

theorem get?_insertLease_of_free {t : WgTable} {peerId expiresAt : Int} {nowStr : String} {k : Int}
    (h : t.get? peerId = none) :
    (insertLease t peerId expiresAt nowStr).get? k =
      if k = peerId then some ⟨peerId, expiresAt, nowStr, none, none, none, none⟩ else t.get? k := by
  rw [get?_insertLease]
  split
  · next hk => rw [hk, h]; rfl
  · rfl

theorem get?_cleanup (t : WgTable) (nowMs k : Int) :
    (cleanupExpiredWireguardConfigs t nowMs).2.get? k =
      (t.get? k).filter fun r => !decide (r.expiresAt < nowMs) :=
  Table.get?_deleteWhere ..

theorem get?_cleanup_eq_some {t : WgTable} {nowMs k : Int} {r : WgRow} :
    (cleanupExpiredWireguardConfigs t nowMs).2.get? k = some r ↔ t.get? k = some r ∧ nowMs ≤ r.expiresAt := by
  rw [get?_cleanup, Option.filter_eq_some_iff]
  simp

theorem get?_markConfigAsFree {t : WgTable} {peerId expected k : Int} {r : WgRow} :
    (markConfigAsFree t peerId (some expected)).get? k = some r ↔
      t.get? k = some r ∧ ¬(k = peerId ∧ r.expiresAt = expected) := by
  rw [markConfigAsFree, Table.get?_deleteWhere, Option.filter_eq_some_iff]
  constructor
  · rintro ⟨hr, h⟩
    rw [Table.get?_key hr] at h
    exact ⟨hr, by simpa only [Bool.not_eq_true', decide_eq_false_iff_not] using h⟩
  · rintro ⟨hr, h⟩
    refine ⟨hr, ?_⟩
    rw [Table.get?_key hr]
    simpa only [Bool.not_eq_true', decide_eq_false_iff_not] using h

section Rows
variable {R : WgRow → WgRow → Prop} (hR : ∀ r, R r r)
include hR

theorem rowsFrom_cleanup (t : WgTable) (nowMs : Int) : t.RowsFrom R (cleanupExpiredWireguardConfigs t nowMs).2 :=
  Table.RowsFrom.deleteWhere hR t _

theorem rowsFrom_free (t : WgTable) (peerId expected : Int) : t.RowsFrom R (markConfigAsFree t peerId (some expected)) :=
  Table.RowsFrom.deleteWhere hR t _

end Rows

theorem get?_updatePeerKeys (t : WgTable) (peerId : Int) (priv pub psk ip : String) (k : Int) :
    (updatePeerKeys t peerId priv pub psk ip).get? k =
      (t.get? k).map fun r => if r.id = peerId then
        { r with privateKey := some priv, publicKey := some pub, presharedKey := some psk, allowedIp := some ip }
      else r := by
  rw [updatePeerKeys, Table.get?_updateWhere]
  simp only [decide_eq_true_eq]

/-- A registration reserves the least free id, of the table or of the purged table if no id was free. -/
theorem registerWireguardLease_ok {t t' : WgTable} {startId endId expiresAt purgeMs : Int} {nowStr : String}
    {l : WgLease} (h : registerWireguardLease t startId endId expiresAt purgeMs nowStr = (.ok l, t')) :
    ∃ t₀, (t₀ = t ∨ selectAvailableId t startId endId = none ∧ t₀ = (cleanupExpiredWireguardConfigs t purgeMs).2) ∧
      selectAvailableId t₀ startId endId = some l.peerId ∧ l.expiresAt = expiresAt ∧
      t' = insertLease t₀ l.peerId expiresAt nowStr := by
  simp only [registerWireguardLease, tryAllocate] at h
  cases hfirst : selectAvailableId t startId endId with
  | some id =>
    simp only [hfirst] at h
    obtain ⟨rfl, rfl⟩ : WgLease.mk id expiresAt = l ∧ _ = t' := by simpa using h
    exact ⟨t, Or.inl rfl, hfirst, rfl, rfl⟩
  | none =>
    simp only [hfirst] at h
    cases hsecond : selectAvailableId (cleanupExpiredWireguardConfigs t purgeMs).2 startId endId with
    | some id =>
      simp only [hsecond] at h
      obtain ⟨rfl, rfl⟩ : WgLease.mk id expiresAt = l ∧ _ = t' := by simpa using h
      exact ⟨_, Or.inr ⟨rfl, rfl⟩, hsecond, rfl, rfl⟩
    | none =>
      simp only [hsecond] at h
      cases h

/-- A refused registration has purged the table, and no id of the range was free before or after. -/
theorem registerWireguardLease_error {t t' : WgTable} {startId endId expiresAt purgeMs : Int} {nowStr : String}
    {e : AppError} (h : registerWireguardLease t startId endId expiresAt purgeMs nowStr = (.error e, t')) :
    selectAvailableId t startId endId = none ∧ t' = (cleanupExpiredWireguardConfigs t purgeMs).2 ∧
      selectAvailableId t' startId endId = none ∧ e = exhausted t' startId endId := by
  simp only [registerWireguardLease, tryAllocate] at h
  cases hfirst : selectAvailableId t startId endId with
  | some id =>
    simp only [hfirst] at h
    cases h
  | none =>
    simp only [hfirst] at h
    cases hsecond : selectAvailableId (cleanupExpiredWireguardConfigs t purgeMs).2 startId endId with
    | some id =>
      simp only [hsecond] at h
      cases h
    | none =>
      simp only [hsecond] at h
      obtain ⟨rfl, rfl⟩ : exhausted _ startId endId = e ∧ _ = t' := by simpa using h
      exact ⟨rfl, rfl, hsecond, rfl⟩

/-- A successful extension found the row unexpired with the expected expiry, and changed only its expiry
    and its update time. -/
theorem extendWireguardLease_ok {t t' : WgTable} {peerId expected new nowMs : Int} {nowStr : String} {l : WgLease}
    (h : extendWireguardLease t peerId expected new nowMs nowStr = (.ok l, t')) :
    ∃ r, t.get? peerId = some r ∧ r.expiresAt = expected ∧ nowMs < r.expiresAt ∧ l = ⟨peerId, new⟩ ∧
      ∀ k, t'.get? k =
        if k = peerId then some { r with expiresAt := new, updatedAt := nowStr } else t.get? k := by
  simp only [extendWireguardLease] at h
  split at h
  · cases h
  · next haff =>
    obtain ⟨rfl, rfl⟩ : WgLease.mk peerId new = l ∧ _ = t' := by simpa using h
    rw [Table.affected_key_eq_zero_iff (k := peerId) fun r hr => (by simpa [extensionMatches] using hr : _ ∧ _).1]
      at haff
    simp only [not_forall, Bool.not_eq_false] at haff
    obtain ⟨r, hr, hmatch⟩ := haff
    obtain ⟨hid, hexp, hnow⟩ : r.id = peerId ∧ r.expiresAt = expected ∧ nowMs < r.expiresAt := by
      simpa [extensionMatches] using hmatch
    refine ⟨r, hr, hexp, hnow, rfl, fun k => ?_⟩
    rw [Table.get?_updateWhere]
    split
    · next hk =>
      subst hk
      rw [hr, Option.map_some, if_pos hmatch]
    · next hk =>
      cases hget : t.get? k with
      | none => rfl
      | some x =>
        have hx : x.id ≠ peerId := fun h => hk ((Table.get?_key hget).symm.trans h)
        simp [extensionMatches, hx]

/-- A refused extension leaves the table as it was, and the id had no unexpired row with the expected
    expiry. -/
theorem extendWireguardLease_error {t t' : WgTable} {peerId expected new nowMs : Int} {nowStr : String}
    {e : AppError} (h : extendWireguardLease t peerId expected new nowMs nowStr = (.error e, t')) :
    t' = t ∧ e = extensionFailed peerId ∧
      ∀ r, t.get? peerId = some r → ¬(r.expiresAt = expected ∧ nowMs < r.expiresAt) := by
  simp only [extendWireguardLease] at h
  split at h
  · next haff =>
    obtain ⟨he, ht⟩ := Prod.mk.inj h
    refine ⟨?_, (Except.error.inj he).symm, fun r hr hmatch => ?_⟩
    · rw [← ht, Table.updateWhere_eq_self haff]
    · obtain ⟨hmem, hid⟩ := Table.get?_eq_some_iff.mp hr
      have hnot := Table.affected_eq_zero_iff.mp haff r hmem
      rw [extensionMatches, decide_eq_false_iff_not] at hnot
      exact hnot ⟨hid, hmatch⟩
  · cases h

theorem mem_expiredPeerIds {t : WgTable} {nowMs id : Int} :
    id ∈ expiredPeerIds t nowMs ↔ ∃ r, t.get? id = some r ∧ r.expiresAt < nowMs := by
  simp only [expiredPeerIds, List.mem_map, List.mem_filter, Table.get?_eq_some_iff, decide_eq_true_eq]
  constructor
  · rintro ⟨r, ⟨hr, hlt⟩, rfl⟩
    exact ⟨r, ⟨hr, rfl⟩, hlt⟩
  · rintro ⟨r, ⟨hr, hid⟩, hlt⟩
    exact ⟨r, ⟨hr, hlt⟩, hid⟩

end TpnWorker
