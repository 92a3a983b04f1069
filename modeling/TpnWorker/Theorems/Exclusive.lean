import TpnWorker.Concurrent.Leases

/-! WireGuard leases are exclusive. An unexpired lease keeps its row through every statement but one: the
    rollback of a failed allocation deletes by id and expiry, so it can meet the row of a later lease. -/

namespace TpnWorker
open Keyed Transition

/-- An unexpired lease that was not rolled back holds the row of its peer id. -/
def Held (s : Sys) : Prop :=
  ∀ c l, s.leases c = some l → l.rolledBack = false → s.clock < l.expiresAt →
    s.holder l.peerId = some c ∧ (s.table.get? l.peerId).isSome

/-- A rollback's DELETE finds no row, the row of its own call, or an expired row. -/
def RollbackSafe (s : Sys) (a : Act) : Prop :=
  ∀ c ∈ a.free?, ∀ call ∈ s.calls c, ∀ id ∈ call.pc.freeing?, ∀ r ∈ s.table.get? id,
    r.expiresAt = call.expiresAt → s.holder id = some c ∨ r.expiresAt ≤ s.clock

instance (s : Sys) (a : Act) : Decidable (RollbackSafe s a) :=
  inferInstanceAs (Decidable (∀ c ∈ a.free?, ∀ call ∈ s.calls c, ∀ id ∈ call.pc.freeing?, ∀ r ∈ s.table.get? id,
    _ → _ ∨ _))

namespace Held
variable {D : Deployment} {s t : Sys} {c : ℕ} {e : Int}

theorem row (I : Leased D s) (H : Held s) {l : Lease} (hl : s.leases c = some l) (hb : l.rolledBack = false)
    (hexp : s.clock < l.expiresAt) :
    s.holder l.peerId = some c ∧ ∃ r, s.table.get? l.peerId = some r ∧ r.expiresAt = l.expiresAt := by
  obtain ⟨hholder, hsome⟩ := H c l hl hb hexp
  obtain ⟨r, hr⟩ := Option.isSome_iff_exists.mp hsome
  obtain ⟨c', l', hc', hl', -, hle⟩ := I.row hr
  cases hholder.symm.trans hc'
  cases hl.symm.trans hl'
  exact ⟨hholder, r, hr, hle.symm⟩

theorem of_eq (H : Held s) (htable : t.table = s.table) (hholder : t.holder = s.holder) (hleases : t.leases = s.leases)
    (hclock : s.clock ≤ t.clock) : Held t := by
  intro c l hl hb hexp
  rw [htable, hholder]
  exact H c l (hleases ▸ hl) hb (hclock.trans_lt hexp)

theorem rows {table : WgTable} (I : Leased D s) (H : Held s)
    (h : ∀ id r, s.table.get? id = some r → s.clock < r.expiresAt → (table.get? id).isSome) :
    Held { s with table } := by
  intro c l hl hb hexp
  obtain ⟨hholder, r, hr, hre⟩ := H.row I hl hb hexp
  exact ⟨hholder, h _ r hr (hre ▸ hexp)⟩

theorem cleanup {nowMs : Int} (I : Leased D s) (H : Held s) (hnow : nowMs ≤ s.clock) :
    Held { s with table := (cleanupExpiredWireguardConfigs s.table nowMs).2 } :=
  H.rows I fun _ r hr hexp =>
    Option.isSome_iff_exists.mpr ⟨r, get?_cleanup_eq_some.mpr ⟨hr, hnow.trans hexp.le⟩⟩

theorem insert {id : Int} {nowStr : String} (I : Leased D s) (H : Held s) (hc : s.calls c = some ⟨e, .inserting id⟩) :
    Held { (s.goto c e (.configuring id)).grant c id e with
      table := insertLease s.table id e nowStr, lock := none } := by
  obtain ⟨hfree, -⟩ := I.inserting hc
  intro c' l hl hb hexp
  rcases Function.update_some_cases hl with ⟨hne, heq⟩ | ⟨hne, hl⟩
  · subst hne
    cases heq
    refine ⟨Function.update_self .., ?_⟩
    show ((insertLease s.table id e nowStr).get? id).isSome
    rw [get?_insertLease_of_free hfree, if_pos rfl, Option.isSome_some]
  · -- an unexpired lease has a row, so it is not on the free id
    obtain ⟨hholder, hsome⟩ := H c' l hl hb hexp
    have hid : l.peerId ≠ id := by
      intro h
      rw [h, hfree] at hsome
      cases hsome
    refine ⟨(Function.update_of_ne hid _ s.holder).trans hholder, ?_⟩
    show ((insertLease s.table id e nowStr).get? l.peerId).isSome
    rw [get?_insertLease_of_free hfree, if_neg hid]
    exact hsome

theorem extend {id new : Int} {nowStr : String} {r : WgRow} {table : WgTable} (H : Held s) (I : Leased D s)
    (hr : s.table.get? id = some r) (hget : ∀ k, table.get? k =
      if k = id then some { r with expiresAt := new, updatedAt := nowStr } else s.table.get? k) :
    Held { s.prolong id new with table } := by
  have hsome : ∀ k, (s.table.get? k).isSome → (table.get? k).isSome := by
    intro k hk
    rw [hget]
    split
    · rfl
    · exact hk
  intro c l hl hb hexp
  obtain ⟨l₀, hl₀, hid, hb₀, hexp₀⟩ := Leased.prolong_leases hl
  rw [hid]
  split at hexp₀
  · next hc =>
    -- the lease that was extended is on the row that was updated
    obtain ⟨c', l', hc', hl', hid', -⟩ := I.row hr
    cases hc'.symm.trans hc
    cases hl'.symm.trans hl₀
    rw [hid']
    exact ⟨hc, hsome _ (Option.isSome_iff_exists.mpr ⟨r, hr⟩)⟩
  · obtain ⟨hholder, hrow⟩ := H c l₀ hl₀ (hb₀ ▸ hb) (hexp₀ ▸ hexp)
    exact ⟨hholder, hsome _ hrow⟩

theorem free {id : Int} {error : AppError} (H : Held s) (I : Leased D s)
    (hsafe : ∀ r, s.table.get? id = some r → r.expiresAt = e → s.holder id = some c ∨ r.expiresAt ≤ s.clock) :
    Held { (s.goto c e (.failed error)).rollBack c id e with table := markConfigAsFree s.table id (some e) } := by
  intro c' l hl hb hexp
  obtain ⟨l₀, hl₀, hid, hexp₀, hflag, -⟩ := Leased.rollBack_leases hl
  obtain ⟨hb₀, hnot⟩ := hflag hb
  rw [hexp₀] at hexp
  rw [hid]
  obtain ⟨hholder, r, hr, hre⟩ := H.row I hl₀ hb₀ hexp
  refine ⟨hholder, Option.isSome_iff_exists.mpr ⟨r, get?_markConfigAsFree.mpr ⟨hr, ?_⟩⟩⟩
  rintro ⟨hpeer, hre'⟩
  rw [hpeer] at hr hholder
  rcases hsafe r hr hre' with hown | hle
  · cases hholder.symm.trans hown
    exact hnot ⟨rfl, hholder, Sys.rowExpires_iff.mpr ⟨r, hr, hre'⟩⟩
  · exact absurd (hle.trans_lt (hre ▸ hexp)) (lt_irrefl _)

theorem step {a : Act} (I : Leased D s) (P : CutoffPast s) (H : Held s) (hsafe : RollbackSafe s a)
    (h : D.step s a = some t) : Held t := by
  cases a with
  | tick now =>
    obtain ⟨hle, rfl⟩ := Step.tick_inv h
    exact H.of_eq rfl rfl rfl hle
  | extend peerId expected new nowMs nowStr =>
    obtain ⟨-, rfl | ⟨r, table, hr, -, rfl, hget⟩⟩ := Step.extend_inv h
    · exact H
    · exact H.extend I hr hget
  | call c a =>
    replace h : D.callStep s c a = some t := h
    cases a with
    | start e =>
      obtain ⟨-, rfl⟩ := Step.start_inv h
      exact H.of_eq rfl rfl rfl le_rfl
    | acquire =>
      obtain ⟨e, -, -, rfl⟩ := Step.acquire_inv h
      exact H.of_eq rfl rfl rfl le_rfl
    | lockTimeout =>
      obtain ⟨e, -, rfl⟩ := Step.lockTimeout_inv h
      exact H.of_eq rfl rfl rfl le_rfl
    | select =>
      obtain ⟨e, pc, -, -, -, ⟨id, -, rfl⟩ | rfl | rfl⟩ := Step.select_inv h <;> exact H.of_eq rfl rfl rfl le_rfl
    | purge nowMs =>
      obtain ⟨e, -, hnow, rfl⟩ := Step.purge_inv h
      exact (H.cleanup I hnow).of_eq rfl rfl rfl le_rfl
    | insert nowStr =>
      obtain ⟨e, id, hc, rfl⟩ := Step.insert_inv h
      exact H.insert I hc
    | dbError error =>
      obtain ⟨e, pc, -, -, -, rfl⟩ := Step.dbError_inv h
      exact H.of_eq rfl rfl rfl le_rfl
    | configure secret psk kernel =>
      obtain ⟨e, id, result, iface, -, -, rfl⟩ := Step.configure_inv h
      exact H.of_eq rfl rfl rfl le_rfl
    | mapInsert =>
      obtain ⟨e, id, state, -, rfl⟩ := Step.mapInsert_inv h
      exact H.of_eq rfl rfl rfl le_rfl
    | store update =>
      obtain ⟨e, id, state, result, table, -, hstore, rfl⟩ := Step.store_inv h
      refine (H.rows I fun k r hr _ => ?_).of_eq rfl rfl rfl le_rfl
      rw [← Option.isSome_map (f := (·.expiresAt)), storePeerKeys_expiresAt hstore, hr]
      rfl
    | mapRemove =>
      obtain ⟨e, id, error, -, rfl | ⟨taken, -, rfl⟩⟩ := Step.mapRemove_inv h <;> exact H.of_eq rfl rfl rfl le_rfl
    | kernelRemove kernel =>
      obtain ⟨e, id, taken, error, -, rfl⟩ := Step.kernelRemove_inv h
      exact H.of_eq rfl rfl rfl le_rfl
    | free delete =>
      cases delete with
      | ok =>
        obtain ⟨e, id, error, hc, rfl⟩ := Step.free_ok_inv h
        exact H.free I fun r hr => hsafe c rfl _ hc id rfl r hr
      | error text =>
        obtain ⟨e, id, error, -, rfl⟩ := Step.free_error_inv h
        exact H.of_eq rfl rfl rfl le_rfl
  | pass p a =>
    replace h : D.passStep s p a = some t := h
    cases a with
    | start =>
      obtain ⟨-, rfl⟩ := Step.passStart_inv h
      exact H.of_eq rfl rfl rfl le_rfl
    | query nowMs rows =>
      obtain ⟨cutoff, -, ⟨-, rfl⟩ | rfl⟩ := Step.query_inv h <;> exact H.of_eq rfl rfl rfl le_rfl
    | mapRemove =>
      obtain ⟨cutoff, id, rest, -, ⟨-, rfl⟩ | ⟨taken, -, rfl⟩⟩ := Step.passMapRemove_inv h <;>
        exact H.of_eq rfl rfl rfl le_rfl
    | kernelRemove kernel =>
      obtain ⟨cutoff, id, taken, rest, -, rfl⟩ := Step.passKernelRemove_inv h
      exact H.of_eq rfl rfl rfl le_rfl
    | delete rows =>
      obtain ⟨cutoff, hp, rfl⟩ := Step.delete_inv h
      cases rows with
      | error => exact H.of_eq rfl rfl rfl le_rfl
      | ok => exact (H.cleanup I (P p _ hp)).of_eq rfl rfl rfl le_rfl

theorem of_reach {clock : Int} (hr : Reach D.step RollbackSafe (.fresh clock) s) : Held s :=
  hr.inv_of_reached (fun _ _ h => by cases h) fun _ _ _ hr H hsafe h =>
    H.step (Leased.of_reach hr) (CutoffPast.of_reach hr) hsafe h

/-- The INSERT of a call grants an id of the range whose earlier leases are over. -/
theorem granted {nowStr : String} (H : Held s) (I : Leased D s) (h : D.step s (.call c (.insert nowStr)) = some t) :
    ∃ id e, t.leases c = some ⟨id, e, false⟩ ∧ D.range.Mem id ∧
      ∀ c' l, s.leases c' = some l → l.peerId = id → l.rolledBack = true ∨ l.expiresAt ≤ s.clock := by
  obtain ⟨e, id, hc, rfl⟩ := Step.insert_inv (D := D) h
  obtain ⟨hfree, hmem⟩ := I.inserting hc
  refine ⟨id, e, Function.update_self .., hmem, fun c' l hl hid => ?_⟩
  cases hb : l.rolledBack with
  | true => exact Or.inl rfl
  | false =>
    right
    by_contra hexp
    obtain ⟨-, hsome⟩ := H c' l hl hb (not_le.mp hexp)
    rw [hid, hfree] at hsome
    cases hsome

end Held

section Exclusive
variable {D : Deployment} {clock : Int} {s t : Sys} {c : ℕ} {nowStr : String}

/-- A granted peer id lies in the range, and every earlier lease of it was rolled back by its call or has
    expired. -/
theorem granted_exclusively (hr : Reach D.step RollbackSafe (.fresh clock) s)
    (h : D.step s (.call c (.insert nowStr)) = some t) :
    ∃ id e, t.leases c = some ⟨id, e, false⟩ ∧ D.range.Mem id ∧
      ∀ c' l, s.leases c' = some l → l.peerId = id → l.rolledBack = true ∨ l.expiresAt ≤ s.clock :=
  (Held.of_reach hr).granted (.of_reach hr) h

/-- A call that is granted peer 1 until 1000 and is still to configure it; the lease is extended to 10, ends
    there, and goes to a second call with the same expiry. -/
def shortenedGrant : List Act :=
  Act.reserve 1 1000 ++ [.extend 1 1000 10 0 "", .tick 50] ++ Act.reservePurged 2 1000 50

/-- The first call fails and deletes the row of the second, and a third call gets the peer id. -/
def staleRollback : List Act :=
  [.call 1 (.configure (.replicate 1) (.replicate 7) (.error "")), .call 1 (.free (.ok ())), .call 3 (.start 2000),
    .call 3 .acquire, .call 3 .select]

theorem live_lease_granted_twice :
    ∃ s t, Reach (Deployment.sample 1).step (fun _ _ => True) (.fresh 0) s ∧
      (Deployment.sample 1).step s (.call 3 (.insert "")) = some t ∧ t.leases 3 = some ⟨1, 2000, false⟩ ∧
        s.leases 2 = some ⟨1, 1000, false⟩ ∧ s.clock < 1000 := by
  have hrun : (exec (Deployment.sample 1).step (.fresh 0) (shortenedGrant ++ staleRollback)).map
      (fun s => (((Deployment.sample 1).step s (.call 3 (.insert ""))).map (·.leases 3), s.leases 2, s.clock)) =
        some (some (some ⟨1, 2000, false⟩), some ⟨1, 1000, false⟩, 50) := by
    decide +kernel
  obtain ⟨s, hs, heq⟩ := Option.map_eq_some_iff.mp hrun
  obtain ⟨ht, h⟩ := Prod.mk.inj heq
  obtain ⟨hlease, hclock⟩ := Prod.mk.inj h
  obtain ⟨t, ht, hgrant⟩ := Option.map_eq_some_iff.mp ht
  exact ⟨s, t, Reach.of_exec (fun _ _ => trivial) hs, ht, hgrant, hlease, by rw [hclock]; decide⟩

/-- A peer id whose lease has run out is granted again. -/
theorem granted_exclusively_sample :
    ∃ s t : Sys, ∃ id e, t.leases 2 = some ⟨id, e, false⟩ ∧ (Deployment.sample 1).range.Mem id ∧
      ∀ c' l, s.leases c' = some l → l.peerId = id → l.rolledBack = true ∨ l.expiresAt ≤ s.clock := by
  have hrun : (execWhen (Deployment.sample 1).step RollbackSafe (.fresh 0)
      (Act.reserve 1 1000 ++ [.tick 1001, .call 2 (.start 3000), .call 2 .acquire, .call 2 .select,
        .call 2 (.purge 1001), .call 2 .select])).map
      (fun s => ((Deployment.sample 1).step s (.call 2 (.insert ""))).isSome) = some true := by
    decide +kernel
  obtain ⟨s, hs, ht⟩ := Option.map_eq_some_iff.mp hrun
  obtain ⟨t, ht⟩ := Option.isSome_iff_exists.mp ht
  have hr := Reach.of_execWhen hs
  exact ⟨s, t, granted_exclusively hr ht⟩

end Exclusive

/-! ### Which extensions make a rollback unsafe -/

/-- An extension of a lease whose granting call is under way does not lower the expiry that the call asked
    for. -/
def KeepsPending (s : Sys) : Act → Prop
  | .extend peerId _ new _ _ =>
    ∀ c call, s.holder peerId = some c → s.calls c = some call → ¬call.pc.Finished → call.expiresAt ≤ new
  | _ => True

/-- The lease of a call under way lasts at least as long as the call asked for. -/
def Pending (s : Sys) : Prop :=
  ∀ c call l, s.calls c = some call → s.leases c = some l → ¬call.pc.Finished → call.expiresAt ≤ l.expiresAt

namespace Pending
variable {D : Deployment} {s t : Sys} {c : ℕ} {e : Int}

theorem of_eq (P : Pending s) (hcalls : t.calls = s.calls) (hleases : t.leases = s.leases) : Pending t := by
  intro c call l hc hl
  exact P c call l (hcalls ▸ hc) (hleases ▸ hl)

theorem move {pc pc' : Pc} (P : Pending s) (hc : s.calls c = some ⟨e, pc⟩) (hf : ¬pc.Finished)
    (hcalls : t.calls = Function.update s.calls c (some ⟨e, pc'⟩)) (hleases : t.leases = s.leases) : Pending t := by
  intro c' call l hc' hl hf'
  rw [hcalls] at hc'
  rw [hleases] at hl
  by_cases hne : c' = c
  · subst hne
    cases (Function.update_self c' _ s.calls).symm.trans hc'
    exact P c' ⟨e, pc⟩ l hc hl hf
  · exact P c' call l ((Function.update_of_ne hne _ s.calls).symm.trans hc') hl hf'

theorem callStep {a : CallAct} (I : Leased D s) (P : Pending s) (h : D.callStep s c a = some t) : Pending t := by
  cases a with
  | start e =>
    obtain ⟨hc, rfl⟩ := Step.start_inv h
    intro c' call l hc' hl hf
    by_cases hne : c' = c
    · subst hne
      cases (I.absent hc).symm.trans hl
    · exact P c' call l ((Function.update_of_ne hne _ s.calls).symm.trans hc') hl hf
  | acquire =>
    obtain ⟨e, hc, -, rfl⟩ := Step.acquire_inv h
    exact P.move hc not_false rfl rfl
  | lockTimeout =>
    obtain ⟨e, hc, rfl⟩ := Step.lockTimeout_inv h
    exact P.move hc not_false rfl rfl
  | select =>
    obtain ⟨e, pc, hc, hl, -, ⟨id, -, rfl⟩ | rfl | rfl⟩ := Step.select_inv h <;>
      exact P.move hc (Pc.not_finished_of_locked hl) rfl rfl
  | purge nowMs =>
    obtain ⟨e, hc, -, rfl⟩ := Step.purge_inv h
    exact P.move hc not_false rfl rfl
  | insert nowStr =>
    obtain ⟨e, id, hc, rfl⟩ := Step.insert_inv h
    intro c' call l hc' hl hf
    by_cases hne : c' = c
    · subst hne
      cases (Function.update_self c' _ s.calls).symm.trans hc'
      cases (Function.update_self c' _ s.leases).symm.trans hl
      exact le_rfl
    · exact P c' call l ((Function.update_of_ne hne _ s.calls).symm.trans hc')
        ((Function.update_of_ne hne _ s.leases).symm.trans hl) hf
  | dbError error =>
    obtain ⟨e, pc, hc, hl, -, rfl⟩ := Step.dbError_inv h
    exact P.move hc (Pc.not_finished_of_locked hl) rfl rfl
  | configure secret psk kernel =>
    obtain ⟨e, id, result, iface, hc, -, rfl⟩ := Step.configure_inv h
    exact P.move hc not_false rfl rfl
  | mapInsert =>
    obtain ⟨e, id, state, hc, rfl⟩ := Step.mapInsert_inv h
    exact P.move hc not_false rfl rfl
  | store update =>
    obtain ⟨e, id, state, result, table, hc, -, rfl⟩ := Step.store_inv h
    exact P.move hc not_false rfl rfl
  | mapRemove =>
    obtain ⟨e, id, error, hc, rfl | ⟨taken, -, rfl⟩⟩ := Step.mapRemove_inv h <;> exact P.move hc not_false rfl rfl
  | kernelRemove kernel =>
    obtain ⟨e, id, taken, error, hc, rfl⟩ := Step.kernelRemove_inv h
    exact P.move hc not_false rfl rfl
  | free delete =>
    cases delete with
    | ok =>
      obtain ⟨e, id, error, hc, rfl⟩ := Step.free_ok_inv h
      intro c' call l hc' hl hf
      obtain ⟨l₀, hl₀, -, hexp, -⟩ := Leased.rollBack_leases hl
      rw [hexp]
      exact (P.move (t := s.goto c e (.failed error)) hc not_false rfl rfl) c' call l₀ hc' hl₀ hf
    | error text =>
      obtain ⟨e, id, error, hc, rfl⟩ := Step.free_error_inv h
      exact P.move hc not_false rfl rfl

theorem step {a : Act} (I : Leased D s) (P : Pending s) (hkeep : KeepsPending s a) (h : D.step s a = some t) :
    Pending t := by
  cases a with
  | tick now =>
    obtain ⟨-, rfl⟩ := Step.tick_inv h
    exact P
  | call c a => exact P.callStep I h
  | extend peerId expected new nowMs nowStr =>
    obtain ⟨-, rfl | ⟨r, table, -, -, rfl, -⟩⟩ := Step.extend_inv h
    · exact P
    · intro c call l hc hl hf
      obtain ⟨l₀, hl₀, -, -, hexp⟩ := Leased.prolong_leases hl
      rw [hexp]
      split
      · next hholder => exact hkeep c call hholder hc hf
      · exact P c call l₀ hc hl₀ hf
  | pass p a =>
    obtain ⟨hcalls, hleases⟩ := Step.passStep_frame (D := D) h
    exact P.of_eq hcalls hleases

/-- The rollback of a call whose lease has outlived its expiry meets its own row, or one that has expired. -/
theorem rollbackSafe (I : Leased D s) (H : Held s) (P : Pending s) (a : Act) : RollbackSafe s a := by
  intro c _ call hc id hid r hr hre
  rw [Option.mem_def] at hc hid hr
  obtain ⟨hpeer, hf⟩ := Pc.freeing?_eq_some hid
  obtain ⟨l, hl, rfl, hb⟩ := I.granted hc hpeer
  by_contra hnot
  obtain ⟨hown, hlive⟩ := not_or.mp hnot
  have hexp : s.clock < l.expiresAt := (not_le.mp hlive).trans_le (hre ▸ P c call l hc hl hf)
  exact hown (H c l hl hb hexp).1

/-- In a run in which no extension lowers the expiry of a call under way, every rollback is safe. -/
theorem reach {clock : Int} (hr : Reach D.step KeepsPending (.fresh clock) s) :
    Reach D.step RollbackSafe (.fresh clock) s ∧ Pending s := by
  induction hr with
  | refl => exact ⟨.refl, fun _ _ _ h => by cases h⟩
  | step a _ hkeep h ih =>
    obtain ⟨hr, P⟩ := ih
    have I := Leased.of_reach hr
    exact ⟨hr.step a (P.rollbackSafe I (Held.of_reach hr) a) h, P.step I hkeep h⟩

end Pending

/-- Without such extensions every grant is exclusive. -/
theorem granted_exclusively_of_extensions {D : Deployment} {clock : Int} {s t : Sys} {c : ℕ} {nowStr : String}
    (hr : Reach D.step KeepsPending (.fresh clock) s) (h : D.step s (.call c (.insert nowStr)) = some t) :
    ∃ id e, t.leases c = some ⟨id, e, false⟩ ∧ D.range.Mem id ∧
      ∀ c' l, s.leases c' = some l → l.peerId = id → l.rolledBack = true ∨ l.expiresAt ≤ s.clock :=
  have hr := (Pending.reach hr).1
  (Held.of_reach hr).granted (.of_reach hr) h

end TpnWorker
