import TpnWorker.Concurrent.Step
import TpnWorker.Lib.Transition

/-! Which lease a row belongs to, in every run. The lock keeps an id free from its SELECT to its INSERT,
    every row carries the expiry of its holder's lease, and a call that is under way has its lease. -/

namespace TpnWorker
open Keyed Transition

/-- What every run keeps. -/
structure Leased (D : Deployment) (s : Sys) : Prop where
  locked : ∀ {c call}, s.calls c = some call → call.pc.Locked → s.lock = some c
  inserting : ∀ {c e id}, s.calls c = some ⟨e, .inserting id⟩ → s.table.get? id = none ∧ D.range.Mem id
  absent : ∀ {c}, s.calls c = none → s.leases c = none
  ungranted : ∀ {c call}, s.calls c = some call → call.pc.Ungranted → s.leases c = none
  granted : ∀ {c call id}, s.calls c = some call → call.pc.peerId? = some id →
    ∃ l, s.leases c = some l ∧ l.peerId = id ∧ l.rolledBack = false
  row : ∀ {id r}, s.table.get? id = some r →
    ∃ c l, s.holder id = some c ∧ s.leases c = some l ∧ l.peerId = id ∧ l.expiresAt = r.expiresAt
  range : ∀ {c l}, s.leases c = some l → D.range.Mem l.peerId

namespace Leased
variable {D : Deployment} {s t : Sys} {c : ℕ} {e : Int}

theorem fresh (clock : Int) : Leased D (.fresh clock) where
  locked h := by cases h
  inserting h := by cases h
  absent _ := rfl
  ungranted h := by cases h
  granted h := by cases h
  row h := by cases h
  range h := by cases h

theorem of_eq (I : Leased D s) (htable : t.table = s.table) (hlock : t.lock = s.lock) (hcalls : t.calls = s.calls)
    (hholder : t.holder = s.holder) (hleases : t.leases = s.leases) : Leased D t where
  locked h := by
    rw [hlock]
    exact I.locked (hcalls ▸ h)
  inserting h := by
    rw [htable]
    exact I.inserting (hcalls ▸ h)
  absent h := by
    rw [hleases]
    exact I.absent (hcalls ▸ h)
  ungranted h := by
    rw [hleases]
    exact I.ungranted (hcalls ▸ h)
  granted h := by
    rw [hleases]
    exact I.granted (hcalls ▸ h)
  row h := by
    rw [hholder, hleases]
    exact I.row (htable ▸ h)
  range h := I.range (hleases ▸ h)

theorem rows {table : WgTable} (I : Leased D s)
    (h : s.table.RowsFrom WgRow.SameExpiry table) : Leased D { s with table } where
  locked := I.locked
  inserting {c e id} hc := by
    obtain ⟨hfree, hmem⟩ := I.inserting hc
    refine ⟨?_, hmem⟩
    cases hget : table.get? id with
    | none => rfl
    | some r =>
      obtain ⟨r₀, hr₀, -⟩ := h id r hget
      cases hfree.symm.trans hr₀
  absent := I.absent
  ungranted := I.ungranted
  granted := I.granted
  row {id r} hr := by
    obtain ⟨r₀, hr₀, hexp⟩ := h id r hr
    obtain ⟨c, l, hc, hl, hid, hle⟩ := I.row hr₀
    exact ⟨c, l, hc, hl, hid, hle.trans hexp⟩
  range := I.range

/-- One call moves on: it takes or drops the lock only as its new place says, and it is granted nothing. -/
theorem move {pc : Pc} (I : Leased D s) (htable : t.table = s.table) (hholder : t.holder = s.holder)
    (hleases : t.leases = s.leases) (hcalls : t.calls = Function.update s.calls c (some ⟨e, pc⟩))
    (hlock : pc.Locked → t.lock = some c) (hkeep : ∀ c', c' ≠ c → s.lock = some c' → t.lock = some c')
    (hins : ∀ id, pc = .inserting id → s.table.get? id = none ∧ D.range.Mem id)
    (hung : pc.Ungranted → s.leases c = none)
    (hid : ∀ id, pc.peerId? = some id → ∃ l, s.leases c = some l ∧ l.peerId = id ∧ l.rolledBack = false) :
    Leased D t where
  locked {c' call} h hl := by
    rw [hcalls] at h
    by_cases hc : c' = c
    · subst hc
      rw [Function.update_self] at h
      cases h
      exact hlock hl
    · rw [Function.update_of_ne hc] at h
      exact hkeep c' hc (I.locked h hl)
  inserting {c' e' id} h := by
    rw [hcalls] at h
    rw [htable]
    by_cases hc : c' = c
    · subst hc
      rw [Function.update_self] at h
      cases h
      exact hins id rfl
    · rw [Function.update_of_ne hc] at h
      exact I.inserting h
  absent {c'} h := by
    rw [hcalls] at h
    rw [hleases]
    by_cases hc : c' = c
    · subst hc
      rw [Function.update_self] at h
      cases h
    · rw [Function.update_of_ne hc] at h
      exact I.absent h
  ungranted {c' call} h hu := by
    rw [hcalls] at h
    rw [hleases]
    by_cases hc : c' = c
    · subst hc
      rw [Function.update_self] at h
      cases h
      exact hung hu
    · rw [Function.update_of_ne hc] at h
      exact I.ungranted h hu
  granted {c' call id} h hp := by
    rw [hcalls] at h
    rw [hleases]
    by_cases hc : c' = c
    · subst hc
      rw [Function.update_self] at h
      cases h
      exact hid id hp
    · rw [Function.update_of_ne hc] at h
      exact I.granted h hp
  row h := by
    rw [hholder, hleases]
    exact I.row (htable ▸ h)
  range h := I.range (hleases ▸ h)

theorem moveGranted {pc pc' : Pc} (I : Leased D s) (hc : s.calls c = some ⟨e, pc⟩) (htable : t.table = s.table)
    (hholder : t.holder = s.holder) (hleases : t.leases = s.leases) (hlock : t.lock = s.lock)
    (hcalls : t.calls = Function.update s.calls c (some ⟨e, pc'⟩)) (hl : ¬pc'.Locked) (hu : ¬pc'.Ungranted)
    (hid : ∀ id, pc'.peerId? = some id → pc.peerId? = some id) : Leased D t :=
  I.move htable hholder hleases hcalls (fun h => absurd h hl) (fun _ _ h => hlock.trans h)
    (fun _ h => absurd (h ▸ trivial) hl) (fun h => absurd h hu) fun id h => I.granted hc (hid id h)

theorem moveFailed {pc : Pc} {error : AppError} (I : Leased D s) (hc : s.calls c = some ⟨e, pc⟩) (hl : pc.Locked)
    (htable : t.table = s.table) (hholder : t.holder = s.holder) (hleases : t.leases = s.leases)
    (hcalls : t.calls = Function.update s.calls c (some ⟨e, .failed error⟩)) : Leased D t :=
  I.move htable hholder hleases hcalls (fun h => h.elim)
    (fun _ hne h => absurd (Option.some.inj (h.symm.trans (I.locked hc hl))) hne) (fun _ h => by cases h)
    (fun h => h.elim) (fun _ h => by cases h)

theorem insert {id : Int} {nowStr : String} (I : Leased D s) (hc : s.calls c = some ⟨e, .inserting id⟩) :
    Leased D { (s.goto c e (.configuring id)).grant c id e with
      table := insertLease s.table id e nowStr, lock := none } where
  locked {c' call} h hl := by
    rcases Function.update_some_cases h with ⟨hne, heq⟩ | ⟨hne, h'⟩
    · subst hne
      cases heq
      exact hl.elim
    · exact absurd (Option.some.inj ((I.locked h' hl).symm.trans (I.locked hc trivial))) hne
  inserting {c' e' id'} h := by
    rcases Function.update_some_cases h with ⟨hne, heq⟩ | ⟨hne, h'⟩
    · subst hne
      cases heq
    · exact absurd (Option.some.inj ((I.locked h' trivial).symm.trans (I.locked hc trivial))) hne
  absent {c'} h := by
    obtain ⟨hne, h⟩ := Function.update_eq_none_cases h
    exact (Function.update_of_ne hne _ s.leases).trans (I.absent h)
  ungranted {c' call} h hu := by
    rcases Function.update_some_cases h with ⟨hne, heq⟩ | ⟨hne, h⟩
    · subst hne
      cases heq
      exact hu.elim
    · exact (Function.update_of_ne hne _ s.leases).trans
        (I.ungranted h hu)
  granted {c' call id'} h hp := by
    rcases Function.update_some_cases h with ⟨hne, heq⟩ | ⟨hne, h⟩
    · subst hne
      cases heq
      cases hp
      exact ⟨_, Function.update_self .., rfl, rfl⟩
    · obtain ⟨l, hl, hid, hr⟩ := I.granted h hp
      exact ⟨l, (Function.update_of_ne hne _ s.leases).trans hl, hid, hr⟩
  row {id' r} h := by
    have hget := (get?_insertLease_of_free (I.inserting hc).1).symm.trans h
    split at hget
    · next hid =>
      subst hid
      cases hget
      exact ⟨c, _, Function.update_self .., Function.update_self .., rfl, rfl⟩
    · next hid =>
      obtain ⟨c', l, hc', hl, hid', hle⟩ := I.row hget
      have hne : c' ≠ c := by
        rintro rfl
        cases (I.ungranted hc trivial).symm.trans hl
      exact ⟨c', l, (Function.update_of_ne hid _ s.holder).trans hc', (Function.update_of_ne hne _ s.leases).trans hl,
        hid', hle⟩
  range {c' l} h := by
    rcases Function.update_some_cases h with ⟨hne, heq⟩ | ⟨hne, h⟩
    · subst hne
      cases heq
      exact (I.inserting hc).2
    · exact I.range h

theorem prolong_leases {id new : Int} {l : Lease} (h : (s.prolong id new).leases c = some l) :
    ∃ l₀, s.leases c = some l₀ ∧ l.peerId = l₀.peerId ∧ l.rolledBack = l₀.rolledBack ∧
      l.expiresAt = if s.holder id = some c then new else l₀.expiresAt := by
  obtain ⟨l₀, hl₀, rfl⟩ := Option.map_eq_some_iff.mp h
  refine ⟨l₀, hl₀, ?_⟩
  split <;> exact ⟨rfl, rfl, rfl⟩

theorem extend {id new : Int} {nowStr : String} {r : WgRow} {table : WgTable} (I : Leased D s)
    (hr : s.table.get? id = some r) (hget : ∀ k, table.get? k =
      if k = id then some { r with expiresAt := new, updatedAt := nowStr } else s.table.get? k) :
    Leased D { s.prolong id new with table } where
  locked := I.locked
  inserting {c e id'} hc := by
    obtain ⟨hfree, hmem⟩ := I.inserting hc
    refine ⟨(hget id').trans ?_, hmem⟩
    split
    · next h =>
      subst h
      cases hfree.symm.trans hr
    · exact hfree
  absent h := by
    show Option.map _ _ = none
    rw [I.absent h, Option.map_none]
  ungranted h hu := by
    show Option.map _ _ = none
    rw [I.ungranted h hu, Option.map_none]
  granted h hp := by
    obtain ⟨l, hl, hid, hb⟩ := I.granted h hp
    refine ⟨_, congrArg (Option.map _) hl, ?_⟩
    split <;> exact ⟨hid, hb⟩
  row {id' r'} h := by
    have h' := (hget id').symm.trans h
    split at h'
    · next hid =>
      subst hid
      cases h'
      obtain ⟨c, l, hc, hl, hid, -⟩ := I.row hr
      refine ⟨c, _, hc, congrArg (Option.map _) hl, ?_⟩
      dsimp only
      rw [if_pos hc]
      exact ⟨hid, rfl⟩
    · next hid =>
      obtain ⟨c, l, hc, hl, hid', hle⟩ := I.row h'
      refine ⟨c, _, hc, congrArg (Option.map _) hl, ?_⟩
      -- the holder of another row has its lease on that row
      have hne : s.holder id ≠ some c := by
        intro hh
        obtain ⟨c₀, l₀, hc₀, hl₀, hid₀, -⟩ := I.row hr
        cases hc₀.symm.trans hh
        cases hl₀.symm.trans hl
        exact hid (hid'.symm.trans hid₀)
      dsimp only
      rw [if_neg hne]
      exact ⟨hid', hle⟩
  range h := by
    obtain ⟨l₀, hl₀, hid, -⟩ := prolong_leases h
    rw [hid]
    exact I.range hl₀

theorem rollBack_leases {id : Int} {c' : ℕ} {l : Lease} (h : (s.rollBack c id e).leases c' = some l) :
    ∃ l₀, s.leases c' = some l₀ ∧ l.peerId = l₀.peerId ∧ l.expiresAt = l₀.expiresAt ∧
      (l.rolledBack = false → l₀.rolledBack = false ∧ ¬(c' = c ∧ s.holder id = some c ∧ s.RowExpires id e)) ∧
      (c' ≠ c → l = l₀) := by
  obtain ⟨l₀, hl₀, rfl⟩ := Option.map_eq_some_iff.mp h
  refine ⟨l₀, hl₀, ?_⟩
  split
  · next hcond => exact ⟨rfl, rfl, fun hf => (Bool.false_ne_true hf.symm).elim, fun hne => absurd hcond.1 hne⟩
  · next hcond => exact ⟨rfl, rfl, fun hf => ⟨hf, hcond⟩, fun _ => rfl⟩

theorem rollBack {id e' : Int} {error : AppError} (I : Leased D s) (hc : s.calls c = some ⟨e', .failed error⟩) :
    Leased D (s.rollBack c id e) where
  locked := I.locked
  inserting := I.inserting
  absent h := by
    show Option.map _ _ = none
    rw [I.absent h, Option.map_none]
  ungranted h hu := by
    show Option.map _ _ = none
    rw [I.ungranted h hu, Option.map_none]
  granted {c' call id'} h hp := by
    obtain ⟨l, hl, hid, hb⟩ := I.granted h hp
    have hne : c' ≠ c := by
      rintro rfl
      cases hc.symm.trans h
      cases hp
    refine ⟨_, congrArg (Option.map _) hl, ?_⟩
    dsimp only
    rw [if_neg fun hcond => hne hcond.1]
    exact ⟨hid, hb⟩
  row h := by
    obtain ⟨c', l, hc', hl, hid, hexp⟩ := I.row h
    refine ⟨c', _, hc', congrArg (Option.map _) hl, ?_⟩
    split <;> exact ⟨hid, hexp⟩
  range h := by
    obtain ⟨l₀, hl₀, hid, -⟩ := rollBack_leases h
    rw [hid]
    exact I.range hl₀

theorem row_range {id : Int} {r : WgRow} (I : Leased D s) (hr : s.table.get? id = some r) : 0 ≤ id ∧ id ≤ 65535 := by
  obtain ⟨c, l, -, hl, rfl, -⟩ := I.row hr
  obtain ⟨hge, hle⟩ := I.range hl
  exact ⟨D.range.start_nonneg.trans hge, hle.trans D.range.end_le⟩

theorem granted_range {call : Call} {id : Int} (I : Leased D s) (hc : s.calls c = some call)
    (hid : call.pc.peerId? = some id) : 0 ≤ id ∧ id ≤ 65535 := by
  obtain ⟨l, hl, rfl, -⟩ := I.granted hc hid
  obtain ⟨hge, hle⟩ := I.range hl
  exact ⟨D.range.start_nonneg.trans hge, hle.trans D.range.end_le⟩

/-! ### The statements on the rows -/

theorem rows_store {api : WgApi} {t t' : WgTable} {peerId : Int} {priv psk ip : String} {update : Except String Unit}
    {result : Except AppError Unit} (hstore : storePeerKeys api t peerId priv psk ip update = (result, t')) :
    t.RowsFrom WgRow.SameExpiry t' := by
  intro id r h
  have hexp := storePeerKeys_expiresAt hstore id
  rw [h, Option.map_some] at hexp
  exact Option.map_eq_some_iff.mp hexp.symm

theorem callStep {a : CallAct} (I : Leased D s) (h : D.callStep s c a = some t) : Leased D t := by
  cases a with
  | start e =>
    obtain ⟨hc, rfl⟩ := Step.start_inv h
    exact I.move rfl rfl rfl rfl (fun h => h.elim) (fun _ _ h => h) (fun _ h => by cases h) (fun _ => I.absent hc)
      (fun _ h => by cases h)
  | acquire =>
    obtain ⟨e, hc, hfree, rfl⟩ := Step.acquire_inv h
    refine I.move rfl rfl rfl rfl (fun _ => rfl) (fun c' _ h => ?_) (fun _ h => by cases h)
      (fun _ => I.ungranted hc trivial) (fun _ h => by cases h)
    cases hfree.symm.trans h
  | lockTimeout =>
    obtain ⟨e, hc, rfl⟩ := Step.lockTimeout_inv h
    exact I.moveGranted hc rfl rfl rfl rfl rfl not_false not_false fun _ h => by cases h
  | select =>
    obtain ⟨e, pc, hc, hl, hu, ⟨id, hsel, rfl⟩ | rfl | rfl⟩ := Step.select_inv h
    · refine I.move rfl rfl rfl rfl (fun _ => I.locked hc hl) (fun _ _ h => h) (fun id' h => ?_)
        (fun _ => I.ungranted hc hu) (fun _ h => by cases h)
      cases h
      obtain ⟨hfree, hge, hle⟩ := selectAvailableId_eq_some D.range.start_le hsel
      exact ⟨hfree, hge, hle⟩
    · exact I.move rfl rfl rfl rfl (fun _ => I.locked hc hl) (fun _ _ h => h) (fun _ h => by cases h)
        (fun _ => I.ungranted hc hu) (fun _ h => by cases h)
    · exact I.moveFailed hc hl rfl rfl rfl rfl
  | purge nowMs =>
    obtain ⟨e, hc, -, rfl⟩ := Step.purge_inv h
    have J := I.rows (rowsFrom_cleanup WgRow.SameExpiry.refl s.table nowMs)
    exact J.move rfl rfl rfl rfl (fun _ => I.locked hc trivial) (fun _ _ h => h)
      (fun _ h => by cases h) (fun _ => I.ungranted hc trivial) (fun _ h => by cases h)
  | insert nowStr =>
    obtain ⟨e, id, hc, rfl⟩ := Step.insert_inv h
    exact I.insert hc
  | dbError error =>
    obtain ⟨e, pc, hc, hl, -, rfl⟩ := Step.dbError_inv h
    exact I.moveFailed hc hl rfl rfl rfl rfl
  | configure secret psk kernel =>
    obtain ⟨e, id, result, iface, hc, -, rfl⟩ := Step.configure_inv h
    cases result with
    | ok => exact I.moveGranted hc rfl rfl rfl rfl rfl not_false not_false fun _ h => h
    | error => exact I.moveGranted hc rfl rfl rfl rfl rfl not_false not_false fun _ h => h
  | mapInsert =>
    obtain ⟨e, id, state, hc, rfl⟩ := Step.mapInsert_inv h
    exact I.moveGranted hc rfl rfl rfl rfl rfl not_false not_false fun _ h => h
  | store update =>
    obtain ⟨e, id, state, result, table, hc, hstore, rfl⟩ := Step.store_inv h
    have J := I.rows (rows_store hstore)
    cases result with
    | ok => exact J.moveGranted hc rfl rfl rfl rfl rfl not_false not_false fun _ h => h
    | error => exact J.moveGranted hc rfl rfl rfl rfl rfl not_false not_false fun _ h => h
  | mapRemove =>
    obtain ⟨e, id, error, hc, rfl | ⟨taken, -, rfl⟩⟩ := Step.mapRemove_inv h
    · exact I.moveGranted hc rfl rfl rfl rfl rfl not_false not_false fun _ h => h
    · exact I.moveGranted hc rfl rfl rfl rfl rfl not_false not_false fun _ h => h
  | kernelRemove kernel =>
    obtain ⟨e, id, taken, error, hc, rfl⟩ := Step.kernelRemove_inv h
    exact I.moveGranted hc rfl rfl rfl rfl rfl not_false not_false fun _ h => h
  | free delete =>
    cases delete with
    | ok =>
      obtain ⟨e, id, error, hc, rfl⟩ := Step.free_ok_inv h
      have J : Leased D (s.goto c e (.failed error)) :=
        I.moveGranted hc rfl rfl rfl rfl rfl not_false not_false fun _ h => by cases h
      exact (J.rollBack (Function.update_self ..)).rows (rowsFrom_free WgRow.SameExpiry.refl s.table id e)
    | error text =>
      obtain ⟨e, id, error, hc, rfl⟩ := Step.free_error_inv h
      exact I.moveGranted hc rfl rfl rfl rfl rfl not_false not_false fun _ h => by cases h

theorem passStep {p : ℕ} {a : PassAct} (I : Leased D s) (h : D.passStep s p a = some t) : Leased D t := by
  cases a with
  | start =>
    obtain ⟨-, rfl⟩ := Step.passStart_inv h
    exact I.of_eq rfl rfl rfl rfl rfl
  | query nowMs rows =>
    obtain ⟨cutoff, -, ⟨-, rfl⟩ | rfl⟩ := Step.query_inv h
    · exact I.of_eq rfl rfl rfl rfl rfl
    · exact I.of_eq rfl rfl rfl rfl rfl
  | mapRemove =>
    obtain ⟨cutoff, id, rest, -, ⟨-, rfl⟩ | ⟨taken, -, rfl⟩⟩ := Step.passMapRemove_inv h
    · exact I.of_eq rfl rfl rfl rfl rfl
    · exact I.of_eq rfl rfl rfl rfl rfl
  | kernelRemove kernel =>
    obtain ⟨cutoff, id, taken, rest, -, rfl⟩ := Step.passKernelRemove_inv h
    exact I.of_eq rfl rfl rfl rfl rfl
  | delete rows =>
    obtain ⟨cutoff, -, rfl⟩ := Step.delete_inv h
    exact (I.rows (rowsFrom_cleanupTable WgRow.SameExpiry.refl s.table cutoff rows)).of_eq rfl rfl rfl rfl rfl

theorem step {a : Act} (I : Leased D s) (h : D.step s a = some t) : Leased D t := by
  cases a with
  | tick now =>
    obtain ⟨-, rfl⟩ := Step.tick_inv h
    exact I.of_eq rfl rfl rfl rfl rfl
  | call c a => exact I.callStep h
  | extend peerId expected new nowMs nowStr =>
    obtain ⟨-, rfl | ⟨r, table, hr, -, rfl, hget⟩⟩ := Step.extend_inv h
    · exact I
    · exact I.extend hr hget
  | pass p a => exact I.passStep h

theorem of_reach {C : Sys → Act → Prop} {clock : Int} (h : Reach D.step C (.fresh clock) s) : Leased D s :=
  h.inv (Leased.fresh clock) fun _ _ _ I _ h => I.step h

end Leased

/-- Every pass read its cutoff before now. -/
def CutoffPast (s : Sys) : Prop := ∀ p pass, s.passes p = some pass → pass.cutoff ≤ s.clock

namespace CutoffPast
variable {D : Deployment} {s t : Sys}

theorem passTo {p : ℕ} {cutoff : Int} {pc : PassPc} (P : CutoffPast s) (hle : cutoff ≤ s.clock) :
    CutoffPast (s.passTo p cutoff pc) := by
  intro p' pass h
  rcases Function.update_some_cases h with ⟨hp, heq⟩ | ⟨hp, h⟩
  · subst hp
    cases heq
    exact hle
  · exact P p' pass h

theorem step {a : Act} (P : CutoffPast s) (h : D.step s a = some t) : CutoffPast t := by
  cases a with
  | tick now =>
    obtain ⟨hle, rfl⟩ := Step.tick_inv h
    exact fun p pass hp => (P p pass hp).trans hle
  | call c a =>
    obtain ⟨hclock, hpasses⟩ := Step.callStep_frame h
    intro p pass hp
    rw [hclock]
    exact P p pass (hpasses ▸ hp)
  | extend peerId expected new nowMs nowStr =>
    obtain ⟨-, rfl | ⟨_, _, -, -, rfl, -⟩⟩ := Step.extend_inv h <;> exact P
  | pass p a =>
    replace h : D.passStep s p a = some t := h
    cases a with
    | start =>
      obtain ⟨-, rfl⟩ := Step.passStart_inv h
      exact P.passTo le_rfl
    | query nowMs rows =>
      obtain ⟨cutoff, hp, ⟨-, rfl⟩ | rfl⟩ := Step.query_inv h <;> exact P.passTo (P p _ hp)
    | mapRemove =>
      obtain ⟨cutoff, id, rest, hp, ⟨-, rfl⟩ | ⟨taken, -, rfl⟩⟩ := Step.passMapRemove_inv h
      · exact P.passTo (P p _ hp)
      · exact fun p' pass h' => P.passTo (P p _ hp) p' pass h'
    | kernelRemove kernel =>
      obtain ⟨cutoff, id, taken, rest, hp, rfl⟩ := Step.passKernelRemove_inv h
      exact fun p' pass h' => P.passTo (P p _ hp) p' pass h'
    | delete rows =>
      obtain ⟨cutoff, hp, rfl⟩ := Step.delete_inv h
      exact fun p' pass h' => P.passTo (P p _ hp) p' pass h'

theorem of_reach {C : Sys → Act → Prop} {clock : Int} (h : Reach D.step C (.fresh clock) s) : CutoffPast s :=
  h.inv (fun _ _ h => by cases h) fun _ _ _ P _ h => P.step h

end CutoffPast

end TpnWorker
