import TpnWorker.Concurrent.Leases
import TpnWorker.Concurrent.Socks5
import TpnWorker.Theorems.Extensions

/-! Which statements move the expiry of an unexpired row backwards: an extension to a time before it, and the UPDATE of
    a SOCKS5 allocation that meets an unexpired row. No statement compares the new expiry with the stored
    one. -/

namespace TpnWorker
open Keyed Transition

/-! ### WireGuard -/

def Act.IsExtension : Act → Prop
  | .extend .. => True
  | _ => False

/-- What a step does to the rows. -/
inductive RowsStep (D : Deployment) (s : Sys) : Act → WgTable → Prop
  | same {a : Act} : ¬a.IsExtension → RowsStep D s a s.table
  | cleanup {a : Act} {nowMs : Int} : ¬a.IsExtension → nowMs ≤ s.clock →
      RowsStep D s a (cleanupExpiredWireguardConfigs s.table nowMs).2
  | insert {c : ℕ} {e id : Int} {nowStr : String} : s.calls c = some ⟨e, .inserting id⟩ →
      RowsStep D s (.call c (.insert nowStr)) (insertLease s.table id e nowStr)
  | store {c : ℕ} {id : Int} {priv psk ip : String} {update : Except String Unit} {result : Except AppError Unit}
      {table : WgTable} : storePeerKeys D.api s.table id priv psk ip update = (result, table) →
      RowsStep D s (.call c (.store update)) table
  | refused {id expected new nowMs : Int} {nowStr : String} : nowMs ≤ s.clock →
      (∀ r, s.table.get? id = some r → ¬(r.expiresAt = expected ∧ nowMs < r.expiresAt)) →
      RowsStep D s (.extend id expected new nowMs nowStr) s.table
  | extend {id new nowMs : Int} {nowStr : String} {r : WgRow} {table : WgTable} : s.table.get? id = some r →
      (∀ k, table.get? k = if k = id then some { r with expiresAt := new, updatedAt := nowStr } else s.table.get? k) →
      RowsStep D s (.extend id r.expiresAt new nowMs nowStr) table
  | free {c : ℕ} {e id : Int} : RowsStep D s (.call c (.free (.ok ()))) (markConfigAsFree s.table id (some e))

/-- An unexpired row is still there and expires no earlier. -/
def ExpiryKept (s : Sys) (table : WgTable) (id : Int) : Prop :=
  ∀ r, s.table.get? id = some r → s.clock < r.expiresAt → ∃ r', table.get? id = some r' ∧ r.expiresAt ≤ r'.expiresAt

/-- Every unexpired row expires no earlier after the step; only a rollback may take one away. -/
def ExpiriesKept (s : Sys) (table : WgTable) (a : Act) : Prop :=
  ∀ id, ExpiryKept s table id ∨ a.free?.isSome ∧ table.get? id = none

/-- An extension moves the expiry of an unexpired row to an earlier time. -/
def Shortens (s : Sys) (a : Act) : Prop :=
  ∃ id new nowMs nowStr r, a = .extend id r.expiresAt new nowMs nowStr ∧ s.table.get? id = some r ∧
    s.clock < r.expiresAt ∧ new < r.expiresAt

section Wireguard
variable {D : Deployment} {s t : Sys} {a : Act}

theorem rowsStep (P : CutoffPast s) (h : D.step s a = some t) : RowsStep D s a t.table := by
  cases a with
  | tick now =>
    obtain ⟨-, rfl⟩ := Step.tick_inv h
    exact .same not_false
  | extend peerId expected new nowMs nowStr =>
    obtain ⟨hnow, ht⟩ := Option.ite_none_right_eq_some.mp (show ite _ _ _ = some t from h)
    split at ht
    · next l table hext =>
      obtain ⟨r, hr, rfl, -, -, hget⟩ := extendWireguardLease_ok hext
      cases ht
      exact .extend hr hget
    · next error table hext =>
      obtain ⟨rfl, -, hno⟩ := extendWireguardLease_error hext
      cases ht
      exact .refused hnow hno
  | call c a =>
    replace h : D.callStep s c a = some t := h
    cases a with
    | start e =>
      obtain ⟨-, rfl⟩ := Step.start_inv h
      exact .same not_false
    | acquire =>
      obtain ⟨e, -, -, rfl⟩ := Step.acquire_inv h
      exact .same not_false
    | lockTimeout =>
      obtain ⟨e, -, rfl⟩ := Step.lockTimeout_inv h
      exact .same not_false
    | select =>
      obtain ⟨e, pc, -, -, -, ⟨id, -, rfl⟩ | rfl | rfl⟩ := Step.select_inv h <;> exact .same not_false
    | purge nowMs =>
      obtain ⟨e, -, hnow, rfl⟩ := Step.purge_inv h
      exact .cleanup not_false hnow
    | insert nowStr =>
      obtain ⟨e, id, hc, rfl⟩ := Step.insert_inv h
      exact .insert hc
    | dbError error =>
      obtain ⟨e, pc, -, -, -, rfl⟩ := Step.dbError_inv h
      exact .same not_false
    | configure secret psk kernel =>
      obtain ⟨e, id, result, iface, -, -, rfl⟩ := Step.configure_inv h
      exact .same not_false
    | mapInsert =>
      obtain ⟨e, id, state, -, rfl⟩ := Step.mapInsert_inv h
      exact .same not_false
    | store update =>
      obtain ⟨e, id, state, result, table, -, hstore, rfl⟩ := Step.store_inv h
      exact .store hstore
    | mapRemove =>
      obtain ⟨e, id, error, -, rfl | ⟨taken, -, rfl⟩⟩ := Step.mapRemove_inv h <;> exact .same not_false
    | kernelRemove kernel =>
      obtain ⟨e, id, taken, error, -, rfl⟩ := Step.kernelRemove_inv h
      exact .same not_false
    | free delete =>
      cases delete with
      | ok =>
        obtain ⟨e, id, error, -, rfl⟩ := Step.free_ok_inv h
        exact .free
      | error text =>
        obtain ⟨e, id, error, -, rfl⟩ := Step.free_error_inv h
        exact .same not_false
  | pass p a =>
    replace h : D.passStep s p a = some t := h
    cases a with
    | start =>
      obtain ⟨-, rfl⟩ := Step.passStart_inv h
      exact .same not_false
    | query nowMs rows =>
      obtain ⟨cutoff, -, ⟨-, rfl⟩ | rfl⟩ := Step.query_inv h <;> exact .same not_false
    | mapRemove =>
      obtain ⟨cutoff, id, rest, -, ⟨-, rfl⟩ | ⟨taken, -, rfl⟩⟩ := Step.passMapRemove_inv h <;> exact .same not_false
    | kernelRemove kernel =>
      obtain ⟨cutoff, id, taken, rest, -, rfl⟩ := Step.passKernelRemove_inv h
      exact .same not_false
    | delete rows =>
      obtain ⟨cutoff, hp, rfl⟩ := Step.delete_inv h
      cases rows with
      | error => exact .same not_false
      | ok => exact .cleanup not_false (P p _ hp)

theorem not_shortens (h : ¬a.IsExtension) : ¬Shortens s a := by
  rintro ⟨id, new, nowMs, nowStr, r, rfl, -⟩
  exact h trivial

theorem ExpiryKept.of_eq {table : WgTable} {id : Int} (h : table.get? id = s.table.get? id) : ExpiryKept s table id :=
  fun r hr _ => ⟨r, h.trans hr, le_rfl⟩

/-- A step keeps the expiries of the unexpired rows, unless it is an extension to an earlier time. -/
theorem expiriesKept_iff (I : Leased D s) (P : CutoffPast s) (h : D.step s a = some t) :
    ExpiriesKept s t.table a ↔ ¬Shortens s a := by
  have hrows := rowsStep P h
  generalize t.table = table at hrows ⊢
  cases hrows with
  | same hne => exact iff_of_true (fun id => Or.inl (.of_eq rfl)) (not_shortens hne)
  | cleanup hne hnow =>
    refine iff_of_true (fun id => Or.inl fun r hr hlive => ⟨r, ?_, le_rfl⟩) (not_shortens hne)
    exact get?_cleanup_eq_some.mpr ⟨hr, hnow.trans hlive.le⟩
  | @insert c e id nowStr hc =>
    obtain ⟨hfree, -⟩ := I.inserting hc
    refine iff_of_true (fun k => Or.inl fun r hr _ => ⟨r, ?_, le_rfl⟩) (not_shortens not_false)
    have hk : k ≠ id := by
      rintro rfl
      cases hfree.symm.trans hr
    rw [get?_insertLease_of_free hfree, if_neg hk, hr]
  | store hstore =>
    refine iff_of_true (fun k => Or.inl fun r hr _ => ?_) (not_shortens not_false)
    have hexp := storePeerKeys_expiresAt hstore k
    rw [hr, Option.map_some, Option.map_eq_some_iff] at hexp
    obtain ⟨r', hr', hexp⟩ := hexp
    exact ⟨r', hr', hexp.ge⟩
  | refused hnow hno =>
    refine iff_of_true (fun id => Or.inl (.of_eq rfl)) ?_
    rintro ⟨id, new, nowMs, nowStr, r, ⟨⟩, hr, hlive, -⟩
    exact hno r hr ⟨rfl, hnow.trans_lt hlive⟩
  | @extend id new nowMs nowStr r _ hr hget =>
    constructor
    · rintro hkept ⟨_, _, _, _, r', ha, hr', hlive, hlt⟩
      rw [Act.extend.injEq] at ha
      obtain ⟨rfl, -, rfl, -⟩ := ha
      cases hr'.symm.trans hr
      obtain hk | ⟨hfree, -⟩ := hkept id
      · obtain ⟨r'', hr'', hle⟩ := hk r hr hlive
        rw [hget, if_pos rfl, Option.some.injEq] at hr''
        subst hr''
        exact absurd hle (not_le.mpr hlt)
      · cases hfree
    · intro hnot k
      refine Or.inl fun r' hr' hlive => ?_
      by_cases hk : k = id
      · subst hk
        cases hr'.symm.trans hr
        refine ⟨_, (hget k).trans (if_pos rfl), ?_⟩
        exact not_lt.mp fun hlt => hnot ⟨k, new, nowMs, nowStr, r, rfl, hr, hlive, hlt⟩
      · exact ⟨r', (hget k).trans ((if_neg hk).trans hr'), le_rfl⟩
  | @free c e id =>
    refine iff_of_true (fun k => ?_) (not_shortens not_false)
    cases hget : (markConfigAsFree s.table id (some e)).get? k with
    | none => exact Or.inr ⟨rfl, rfl⟩
    | some r =>
      refine Or.inl (.of_eq (hget.trans ?_))
      exact (get?_markConfigAsFree.mp hget).1.symm

end Wireguard

/-! ### SOCKS5 -/

/-- Every unexpired row expires no earlier after a statement. -/
def SlotsKept (s : SockSys) (table : Socks5Table) : Prop :=
  ∀ u r, readSocks5ConfigByUsername s.table u = some r → s.clock < r.expiresAt →
    ∃ r', readSocks5ConfigByUsername table u = some r' ∧ r.expiresAt ≤ r'.expiresAt

/-- An extension moves the expiry of an unexpired row to an earlier time, or the UPDATE of an allocation writes an
    earlier one into an unexpired row. -/
inductive SlotShortens (s : SockSys) : SockAct → Prop
  | extend {u : String} {new : Int} {r : Socks5Config} : readSocks5ConfigByUsername s.table u = some r →
      s.clock < r.expiresAt → new < r.expiresAt → SlotShortens s (.extend u r.expiresAt new)
  | handOut {c : ℕ} {nowMs e : Int} {config r : Socks5Config} : s.calls c = some ⟨e, .updating config⟩ →
      readSocks5ConfigByUsername s.table config.username = some r → s.clock < r.expiresAt → e < r.expiresAt →
      SlotShortens s (.call c (.handOut nowMs))
  | mark {c : ℕ} {nowMs e : Int} {config r : Socks5Config} : s.calls c = some ⟨e, .marking config⟩ →
      readSocks5ConfigByUsername s.table config.username = some r → r.password = config.password →
      s.clock < r.expiresAt → e < r.expiresAt → SlotShortens s (.call c (.mark nowMs))

section Socks5
variable {N : Int} {s t : SockSys} {a : SockAct} {p : Socks5Config → Bool} {u : Socks5Update}

theorem slotsKept_same : SlotsKept s s.table := fun _ r hr _ => ⟨r, hr, le_rfl⟩

theorem slotsKept_updateWhere : SlotsKept s (s.table.updateWhere p u) ↔
    ∀ name r, readSocks5ConfigByUsername s.table name = some r → s.clock < r.expiresAt → p r = true →
      r.expiresAt ≤ (u.set r).expiresAt := by
  constructor
  · intro h name r hr hlive hp
    obtain ⟨r', hr', hle⟩ := h name r hr hlive
    rw [Socks5Table.read_updateWhere_of hr, if_pos hp, Option.some.injEq] at hr'
    exact hr' ▸ hle
  · intro h name r hr hlive
    refine ⟨_, Socks5Table.read_updateWhere_of hr, ?_⟩
    split
    · next hp => exact h name r hr hlive hp
    · exact le_rfl

theorem slotsKept_cleanup : SlotsKept s (cleanupExpiredSocks5Configs s.table s.clock).2 := by
  refine slotsKept_updateWhere.mpr fun name r _ hlive hp => ?_
  exact absurd (of_decide_eq_true hp).2 (not_le.mpr hlive)

theorem not_slotShortens (h : ¬a.Sets) : ¬SlotShortens s a := by
  intro hs
  cases hs <;> exact h trivial

theorem read_username {name name' : String} {r r' : Socks5Config} (hr : readSocks5ConfigByUsername s.table name = some r)
    (hname : r.username = name') (hr' : readSocks5ConfigByUsername s.table name' = some r') : r = r' := by
  obtain rfl := (Socks5Table.read_eq_some_iff.mp hr).2.symm.trans hname
  exact Option.some.inj (hr.symm.trans hr')

/-- A step keeps the expiries of the unexpired slots, unless it writes an earlier one into such a row. -/
theorem slotsKept_iff (h : s.step N a = some t) : SlotsKept s t.table ↔ ¬SlotShortens s a := by
  have hslots := slotsStep h
  generalize t.table = table at hslots ⊢
  cases hslots with
  | same hne => exact iff_of_true slotsKept_same (not_slotShortens hne)
  | cleanup hne => exact iff_of_true slotsKept_cleanup (not_slotShortens hne)
  | refused hno =>
    refine iff_of_true slotsKept_same fun hs => ?_
    cases hs with
    | extend hr hlive _ => exact hno _ hr ⟨rfl, hlive⟩
  | @extend name new r hr hlive =>
    rw [slotsKept_updateWhere]
    constructor
    · intro h hs
      generalize ha : SockAct.extend name r.expiresAt new = a at hs
      cases hs with
      | extend hr' _ hlt =>
        rw [SockAct.extend.injEq] at ha
        obtain ⟨rfl, hexp, rfl⟩ := ha
        have hname := (Socks5Table.read_eq_some_iff.mp hr).2
        exact absurd (h name r hr hlive (decide_eq_true ⟨hname, rfl, hlive⟩)) (not_le.mpr (hexp ▸ hlt))
      | _ => cases ha
    · intro hnot name' r' hr' hlive' hp
      obtain rfl := read_username hr' (of_decide_eq_true hp).1 hr
      exact not_lt.mp fun hlt => hnot (.extend hr hlive hlt)
  | @handOut c nowMs e config hc =>
    rw [updatePriority, slotsKept_updateWhere]
    constructor
    · rintro h (_ | ⟨hc', hr, hlive, hlt⟩ | _)
      cases hc'.symm.trans hc
      exact absurd (h _ _ hr hlive (decide_eq_true (Socks5Table.read_eq_some_iff.mp hr).2)) (not_le.mpr hlt)
    · intro hnot name r hr hlive hp
      obtain rfl := (Socks5Table.read_eq_some_iff.mp hr).2.symm.trans (of_decide_eq_true hp)
      exact not_lt.mp fun hlt => hnot (.handOut hc hr hlive hlt)
  | @mark c nowMs e config hc =>
    rw [markUnavailable, slotsKept_updateWhere]
    constructor
    · rintro h (_ | _ | ⟨hc', hr, hpass, hlive, hlt⟩)
      cases hc'.symm.trans hc
      have hname := (Socks5Table.read_eq_some_iff.mp hr).2
      exact absurd (h _ _ hr hlive (decide_eq_true ⟨hname, hpass⟩)) (not_le.mpr hlt)
    · intro hnot name r hr hlive hp
      obtain ⟨hname, hpass⟩ := of_decide_eq_true hp
      obtain rfl := (Socks5Table.read_eq_some_iff.mp hr).2.symm.trans hname
      exact not_lt.mp fun hlt => hnot (.mark hc hr hpass hlive hlt)

end Socks5

/-! ### Both tables -/

section Service
variable {W : Worker} {s s' : Stores} {req : LeaseRequest} {env : LeaseEnv} {ref : String} {expected : Int}
  {result : LeaseResult}

/-- A successful extension found its row with the expected expiry and returns the new one. -/
theorem extension_result (hext : req.extendRef = some ref) (hexpected : req.extendExpiresAt = some expected)
    (h : getWorkerConfig W s req env = (.ok result, s')) :
    result.leaseExpiresAt = newExpiresAt env.nowMs req.leaseSeconds := by
  simp only [getWorkerConfig, hext, hexpected] at h
  split at h
  · obtain ⟨-, -, -, -, -, -, -, hnew, -⟩ := extendWireguard_eq_ok h
    exact hnew
  · split at h
    · obtain ⟨-, -, -, -, -, -, hnew, -⟩ := extendSocks5_eq_ok h
      exact hnew
    · cases h

end Service

/-- An unexpired row of either table keeps its expiry or gets a later one, in every step that does not write an
    earlier time into it; and an extension returns no earlier expiry than it replaced exactly if the time that it
    computes from the clock and the duration is not before it. -/
theorem expiry_never_earlier_iff (clock : Int) :
    (∀ (D : Deployment) s t a, Reach D.step (fun _ _ => True) (.fresh clock) s → D.step s a = some t →
      (ExpiriesKept s t.table a ↔ ¬Shortens s a)) ∧
    (∀ N s t a, SockSys.step N s a = some t → (SlotsKept s t.table ↔ ¬SlotShortens s a)) ∧
    ∀ W s s' req env ref expected result, req.extendRef = some ref → req.extendExpiresAt = some expected →
      getWorkerConfig W s req env = (.ok result, s') →
      (expected ≤ result.leaseExpiresAt ↔ expected ≤ newExpiresAt env.nowMs req.leaseSeconds) := by
  refine ⟨fun D s t a hr h => ?_, fun N s t a h => slotsKept_iff h, fun W s s' req env ref expected result hr he h => ?_⟩
  · exact expiriesKept_iff (.of_reach hr) (.of_reach hr) h
  · rw [extension_result hr he h]

/-- The stores of a worker that has handed out the slot `u_a` at 0 for 60 seconds. -/
def minuteLease : Stores := (getWorkerConfig .mock ⟨.fresh, .sample⟩ ⟨"socks5", 60, true, "json", none, none⟩ (.sample 0 1)).2

/-- An extension of a lease of 60 seconds by one second, one second after its start. -/
def secondExtension : LeaseRequest := ⟨"socks5", 1, true, "json", some "u_a", some 60000⟩

/-- The same extension of a WireGuard lease, and the SOCKS5 one with the answer that its caller gets. -/
theorem extension_moves_expiry_back :
    (∃ s t : Sys, Reach (Deployment.sample 1).step (fun _ _ => True) (.fresh 0) s ∧
      (Deployment.sample 1).step s (.extend 1 60000 (newExpiresAt 1000 1) 1000 "") = some t ∧
      ¬ExpiriesKept s t.table (.extend 1 60000 (newExpiresAt 1000 1) 1000 "")) ∧
    ∃ result s', getWorkerConfig .mock minuteLease secondExtension (.sample 1000 1) = (.ok result, s') ∧
      result.leaseExpiresAt = 2000 := by
  constructor
  · have hrun : ((exec (Deployment.sample 1).step (.fresh 0) (Act.reserve 1 60000 ++ [.tick 1000])).bind fun s =>
        ((Deployment.sample 1).step s (.extend 1 60000 (newExpiresAt 1000 1) 1000 "")).map fun t =>
          ((s.table.get? 1).map (·.expiresAt), s.clock, (t.table.get? 1).map (·.expiresAt))) =
            some (some 60000, 1000, some 2000) := by
      decide +kernel
    obtain ⟨s, hs, hrest⟩ := Option.bind_eq_some_iff.mp hrun
    obtain ⟨t, ht, heq⟩ := Option.map_eq_some_iff.mp hrest
    obtain ⟨hbefore, h⟩ := Prod.mk.inj heq
    obtain ⟨hclock, hafter⟩ := Prod.mk.inj h
    refine ⟨s, t, Reach.of_exec (fun _ _ => trivial) hs, ht, fun hkept => ?_⟩
    obtain ⟨r, hr, hexp⟩ := Option.map_eq_some_iff.mp hbefore
    obtain ⟨r', hr', hexp'⟩ := Option.map_eq_some_iff.mp hafter
    obtain hk | ⟨hfree, -⟩ := hkept 1
    · obtain ⟨r'', hr'', hle⟩ := hk r hr (by rw [hclock, hexp]; decide)
      cases hr''.symm.trans hr'
      rw [hexp, hexp'] at hle
      exact absurd hle (by decide)
    · cases hfree
  · have hrun : (getWorkerConfig .mock minuteLease secondExtension (.sample 1000 1)).1.toOption.any
        fun result => decide (result.leaseExpiresAt = 2000) := by
      decide +kernel
    obtain ⟨result, hresult, hexp⟩ := (Option.any_eq_true _ _).mp hrun
    exact ⟨result, _, eq_ok_of_mem_toOption hresult, of_decide_eq_true hexp⟩

/-- One step of each table, and the extension that returns an earlier expiry. -/
theorem expiry_never_earlier_iff_sample :
    ∃ (s t : Sys) (u v : SockSys) (result : LeaseResult),
      (ExpiriesKept s t.table (.extend 1 60000 70000 0 "") ↔ ¬Shortens s (.extend 1 60000 70000 0 "")) ∧
      (SlotsKept u v.table ↔ ¬SlotShortens u (.extend "u_b" 60000 70000)) ∧
      (60000 ≤ result.leaseExpiresAt ↔ 60000 ≤ newExpiresAt 1000 1) := by
  have hrows : ((exec (Deployment.sample 1).step (.fresh 0) (Act.reserve 1 60000)).bind fun s =>
      (Deployment.sample 1).step s (.extend 1 60000 70000 0 "")).isSome := by
    decide +kernel
  have hslots : ((exec (SockSys.step 1) (.start .sample 0) (SockAct.lease 1 60000)).bind fun s =>
      SockSys.step 1 s (.extend "u_b" 60000 70000)).isSome := by
    decide +kernel
  have hservice : (getWorkerConfig .mock minuteLease secondExtension (.sample 1000 1)).1.toOption.isSome := by
    decide +kernel
  obtain ⟨t, hrun⟩ := Option.isSome_iff_exists.mp hrows
  obtain ⟨s, hs, ht⟩ := Option.bind_eq_some_iff.mp hrun
  obtain ⟨v, hrun⟩ := Option.isSome_iff_exists.mp hslots
  obtain ⟨u, hu, hv⟩ := Option.bind_eq_some_iff.mp hrun
  obtain ⟨result, hresult⟩ := Option.isSome_iff_exists.mp hservice
  refine ⟨s, t, u, v, result, ?_, ?_, ?_⟩
  · exact (expiry_never_earlier_iff 0).1 _ s t _ (Reach.of_exec (fun _ _ => trivial) hs) ht
  · exact (expiry_never_earlier_iff 0).2.1 1 u v _ hv
  · exact (expiry_never_earlier_iff 0).2.2 _ _ _ secondExtension (.sample 1000 1) _ _ _ rfl rfl
      (eq_ok_of_mem_toOption hresult)

end TpnWorker
