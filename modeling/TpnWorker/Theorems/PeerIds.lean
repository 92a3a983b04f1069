import TpnWorker.Db.Wireguard
import TpnWorker.Lib.Least

/-! Which peer id a registration reserves: the least id of the range without a row or, if there is none, the least one
    whose row has expired. -/

namespace TpnWorker
open Keyed

/-- The ids of the range without a row. -/
def freeIds (t : WgTable) (startId endId : Int) : Set Int := {id | (startId ≤ id ∧ id ≤ endId) ∧ t.get? id = none}

/-- The ids of the range whose row has expired. -/
def expiredIds (t : WgTable) (startId endId now : Int) : Set Int :=
  {id | (startId ≤ id ∧ id ≤ endId) ∧ ∃ r, t.get? id = some r ∧ r.expiresAt < now}

/-- The id that a registration is to reserve. -/
def ReservedNext (t : WgTable) (startId endId now id : Int) : Prop :=
  IsLeast (freeIds t startId endId) id ∨ freeIds t startId endId = ∅ ∧ IsLeast (expiredIds t startId endId now) id

/-- Every row that has not expired stands in the other table too, other than the row of `id`. -/
def KeepsUnexpired (now : Int) (except : Option Int) (t t' : WgTable) : Prop :=
  ∀ id r, some id ≠ except → t.get? id = some r → now ≤ r.expiresAt → t'.get? id = some r

section Registration
variable {t t' t₀ : WgTable} {startId endId expiresAt now id : Int} {nowStr : String} {l : WgLease} {e : AppError}

theorem ids_sorted (startId endId : Int) : (ids startId endId).Pairwise (· < ·) := by
  rw [ids, List.pairwise_map]
  exact List.pairwise_lt_range.imp fun h => by omega

theorem selectAvailableId_iff (h : startId ≤ endId) :
    selectAvailableId t startId endId = some id ↔ IsLeast (freeIds t startId endId) id := by
  rw [selectAvailableId, List.find?_eq_some_iff_isLeast (ids_sorted startId endId)]
  simp only [mem_ids h, Option.isNone_iff_eq_none, freeIds]

theorem freeIds_eq_empty (h : startId ≤ endId) :
    freeIds t startId endId = ∅ ↔ selectAvailableId t startId endId = none := by
  simp only [freeIds, selectAvailableId, List.find?_eq_none, mem_ids h, Set.eq_empty_iff_forall_notMem, Set.mem_ofPred_eq,
    not_and, Option.isNone_iff_eq_none]

/-- In a full range the purge frees the ids whose rows have expired. -/
theorem freeIds_purged (hfull : freeIds t startId endId = ∅) :
    freeIds (cleanupExpiredWireguardConfigs t now).2 startId endId = expiredIds t startId endId now := by
  ext id
  refine and_congr_right fun hrange => ?_
  rw [get?_cleanup]
  cases hget : t.get? id with
  | none => exact absurd (show id ∈ freeIds t startId endId from ⟨hrange, hget⟩) (hfull ▸ Set.notMem_empty id)
  | some r => simp [Option.filter]

theorem keepsUnexpired_purge (t : WgTable) (now : Int) :
    KeepsUnexpired now none t (cleanupExpiredWireguardConfigs t now).2 :=
  fun _ _ _ hget hlive => get?_cleanup_eq_some.mpr ⟨hget, hlive⟩

theorem keepsUnexpired_insertLease (h : KeepsUnexpired now none t t₀) (hfree : t₀.get? id = none) :
    KeepsUnexpired now (some id) t (insertLease t₀ id expiresAt nowStr) := by
  intro id' r hne hget hlive
  rw [get?_insertLease_of_free hfree, if_neg fun heq => hne (congrArg some heq)]
  exact h id' r (by simp) hget hlive

/-- What a registration that succeeds reserves and leaves alone. -/
theorem reserved_next (hrange : startId ≤ endId)
    (h : registerWireguardLease t startId endId expiresAt now nowStr = (.ok l, t')) :
    ReservedNext t startId endId now l.peerId ∧ l.expiresAt = expiresAt ∧
      t'.get? l.peerId = some ⟨l.peerId, expiresAt, nowStr, none, none, none, none⟩ ∧
      KeepsUnexpired now (some l.peerId) t t' := by
  obtain ⟨t₀, ht₀, hselect, hexp, rfl⟩ := registerWireguardLease_ok h
  have hfree := (selectAvailableId_eq_some hrange hselect).1
  have hrow : (insertLease t₀ l.peerId expiresAt nowStr).get? l.peerId =
      some ⟨l.peerId, expiresAt, nowStr, none, none, none, none⟩ := by
    rw [get?_insertLease_of_free hfree, if_pos rfl]
  rcases ht₀ with rfl | ⟨hfull, rfl⟩
  · refine ⟨Or.inl ((selectAvailableId_iff hrange).mp hselect), hexp, hrow, ?_⟩
    exact keepsUnexpired_insertLease (fun _ _ _ hget _ => hget) hfree
  · have hempty := (freeIds_eq_empty hrange).mpr hfull
    have hleast := (selectAvailableId_iff hrange).mp hselect
    rw [freeIds_purged hempty] at hleast
    exact ⟨Or.inr ⟨hempty, hleast⟩, hexp, hrow, keepsUnexpired_insertLease (keepsUnexpired_purge t now) hfree⟩

/-- A registration that is refused found the range full of unexpired rows, and has only purged the table. -/
theorem refused_full (hrange : startId ≤ endId)
    (h : registerWireguardLease t startId endId expiresAt now nowStr = (.error e, t')) :
    freeIds t startId endId = ∅ ∧ expiredIds t startId endId now = ∅ ∧ (∃ message, e = .leaseUnavailable message) ∧
      KeepsUnexpired now none t t' := by
  obtain ⟨hfull, rfl, hstill, rfl⟩ := registerWireguardLease_error h
  have hempty := (freeIds_eq_empty hrange).mpr hfull
  have hexpired := (freeIds_eq_empty hrange).mpr hstill
  rw [freeIds_purged hempty] at hexpired
  exact ⟨hempty, hexpired, ⟨_, rfl⟩, keepsUnexpired_purge t now⟩

/-- A registration succeeds exactly if some id of the range has no row or an expired one. It reserves the least id without
    a row, or else the least one with an expired row, and no unexpired row of another id changes. -/
theorem registration_complete_minimal (t : WgTable) (startId endId expiresAt now : Int) (nowStr : String)
    (hrange : startId ≤ endId) :
    ((∃ l t', registerWireguardLease t startId endId expiresAt now nowStr = (.ok l, t')) ↔
        (freeIds t startId endId ∪ expiredIds t startId endId now).Nonempty) ∧
      (∀ l t', registerWireguardLease t startId endId expiresAt now nowStr = (.ok l, t') →
        ReservedNext t startId endId now l.peerId ∧ l.expiresAt = expiresAt ∧
          t'.get? l.peerId = some ⟨l.peerId, expiresAt, nowStr, none, none, none, none⟩ ∧
          KeepsUnexpired now (some l.peerId) t t') ∧
      ∀ e t', registerWireguardLease t startId endId expiresAt now nowStr = (.error e, t') →
        (∃ message, e = .leaseUnavailable message) ∧ KeepsUnexpired now none t t' := by
  refine ⟨⟨?_, fun hsome => ?_⟩, fun l t' h => reserved_next hrange h, fun e t' h => (refused_full hrange h).2.2⟩
  · rintro ⟨l, t', h⟩
    rcases (reserved_next hrange h).1 with hleast | ⟨-, hleast⟩
    · exact ⟨_, Or.inl hleast.1⟩
    · exact ⟨_, Or.inr hleast.1⟩
  · cases h : registerWireguardLease t startId endId expiresAt now nowStr with
    | mk result t' =>
      cases result with
      | ok l => exact ⟨l, t', rfl⟩
      | error e =>
        obtain ⟨hfree, hexpired, -⟩ := refused_full hrange h
        rw [hfree, hexpired, Set.union_empty] at hsome
        exact absurd hsome Set.not_nonempty_empty

/-- Two ids with an expired row and a live one. -/
theorem registration_complete_minimal_sample :
    ∃ l t', registerWireguardLease (insertLease (insertLease .empty 1 100 "") 2 10 "") 1 2 90 50 "" = (.ok l, t') := by
  have h := (registration_complete_minimal (insertLease (insertLease .empty 1 100 "") 2 10 "") 1 2 90 50 "" (by decide)).1
  refine h.mpr ⟨2, Or.inr ⟨⟨by decide, by decide⟩, ⟨2, 10, "", none, none, none, none⟩, ?_, by decide⟩⟩
  decide

end Registration

end TpnWorker
