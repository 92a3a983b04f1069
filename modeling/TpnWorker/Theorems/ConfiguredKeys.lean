import TpnWorker.Node

/-! Every key configured on the interface belongs to a map entry, and every entry's id has a row. Each
    operation keeps this, with one exception: the purge of an exhausted pool deletes the rows of expired
    leases whose peers are still in the map. -/

namespace TpnWorker
open Keyed Transition

/-- Every configured key belongs to a map entry, every entry's id has a row, and every row's id fits 16 bits. -/
structure Linked (s : WgState) : Prop where
  configured : ∀ {key peer}, s.iface key = some peer → ∃ id st, s.peers id = some st ∧ st.publicKey = encodeKey key
  entry : ∀ {id st}, s.peers id = some st → (s.table.get? (id : Int)).isSome ∧ ∃ key, st.publicKey = encodeKey key
  ids : ∀ {id r}, s.table.get? id = some r → 0 ≤ id ∧ id ≤ 65535

/-- No expired row has a peer in the map. -/
def ExpiredUnmapped (s : WgState) (nowMs : Int) : Prop :=
  ∀ r ∈ s.table.rows, r.expiresAt < nowMs → (s.peers (Wrap.asU16 r.id)).isNone

/-- An allocation that purges an exhausted pool finds no expired row whose peer is still in the map. -/
def PurgeSafe (range : PeerRange) (s : WgState) : Op → Prop
  | .allocate _ env => selectAvailableId s.table range.startId range.endId = none → ExpiredUnmapped s env.purgeMs
  | _ => True

instance (range : PeerRange) (s : WgState) : ∀ op, Decidable (PurgeSafe range s op)
  | .allocate .. => inferInstanceAs (Decidable (_ → ∀ r ∈ s.table.rows, _ → _))
  | .extend .. | .cleanup .. => inferInstanceAs (Decidable True)

namespace Linked
variable {s : WgState}

theorem fresh : Linked .fresh where
  configured h := by cases h
  entry h := by cases h
  ids h := by cases h

theorem of_table {t : WgTable} (I : Linked s) (h : ∀ k, (t.get? k).isSome = (s.table.get? k).isSome) :
    Linked { s with table := t } where
  configured := I.configured
  entry hst := by
    obtain ⟨hrow, hkey⟩ := I.entry hst
    exact ⟨(h _).trans hrow, hkey⟩
  ids hr := by
    obtain ⟨r, hr⟩ := Option.isSome_iff_exists.mp ((h _).symm.trans (Option.isSome_iff_exists.mpr ⟨_, hr⟩))
    exact I.ids hr

theorem extend (I : Linked s) (peerId expected new nowMs : Int) (nowStr : String) :
    Linked { s with table := (extendWireguardLease s.table peerId expected new nowMs nowStr).2 } := by
  cases h : extendWireguardLease s.table peerId expected new nowMs nowStr with
  | mk result t =>
    cases result with
    | error e =>
      obtain ⟨rfl, -⟩ := extendWireguardLease_error h
      exact I
    | ok l =>
      obtain ⟨r, hr, -, -, -, hget⟩ := extendWireguardLease_ok h
      refine I.of_table fun k => ?_
      rw [hget]
      split
      · next hk => rw [hk, hr, Option.isSome_some, Option.isSome_some]
      · rfl

theorem cleanup {nowMs : Int} (I : Linked s) (h : ExpiredUnmapped s nowMs) :
    Linked { s with table := (cleanupExpiredWireguardConfigs s.table nowMs).2 } where
  configured := I.configured
  entry {id st} hst := by
    obtain ⟨hrow, hkey⟩ := I.entry hst
    obtain ⟨r, hr⟩ := Option.isSome_iff_exists.mp hrow
    refine ⟨Option.isSome_iff_exists.mpr ⟨r, get?_cleanup_eq_some.mpr ⟨hr, ?_⟩⟩, hkey⟩
    by_contra hexp
    have hnone := h r (Table.get?_eq_some_iff.mp hr).1 (not_le.mp hexp)
    obtain ⟨-, hle⟩ := I.ids hr
    rw [Table.get?_key hr, Wrap.asU16_natCast (by omega), hst] at hnone
    cases hnone
  ids hr := I.ids (get?_cleanup_eq_some.mp hr).1

theorem insert {t : WgTable} {id : Int} {key : Key} {peer : KernelPeer} {st : PeerState} (I : Linked s)
    (hfree : s.table.get? id = none) (hid₁ : 0 ≤ id) (hid₂ : id ≤ 65535) (hkey : st.publicKey = encodeKey key)
    (hget : ∀ k, (t.get? k).isSome = if k = id then true else (s.table.get? k).isSome) :
    Linked ⟨t, Function.update s.peers (Wrap.asU16 id) (some st), s.iface.configure key peer⟩ where
  configured {key' peer'} h := by
    dsimp only at h ⊢
    by_cases hk : key' = key
    · subst hk
      exact ⟨Wrap.asU16 id, st, Function.update_self .., hkey⟩
    · rw [Interface.configure_of_ne hk] at h
      obtain ⟨id', st', hst', hkey'⟩ := I.configured h
      refine ⟨id', st', ?_, hkey'⟩
      -- the entry of another key is not under the free id, which has no row
      have hne : id' ≠ Wrap.asU16 id := by
        rintro rfl
        have hrow := (I.entry hst').1
        rw [Wrap.natCast_asU16 hid₁ (by omega), hfree] at hrow
        cases hrow
      rw [Function.update_of_ne hne]
      exact hst'
  entry {id' st'} h := by
    dsimp only at h
    rw [hget]
    by_cases hid : id' = Wrap.asU16 id
    · subst hid
      rw [Function.update_self] at h
      cases h
      exact ⟨if_pos (Wrap.natCast_asU16 hid₁ (by omega)), key, hkey⟩
    · rw [Function.update_of_ne hid] at h
      obtain ⟨hrow, hkey'⟩ := I.entry h
      exact ⟨by simp only [hrow, ite_self], hkey'⟩
  ids {id' r} h := by
    have hsome := hget id'
    dsimp only at h
    rw [h, Option.isSome_some] at hsome
    split at hsome
    · next hid => exact hid ▸ ⟨hid₁, hid₂⟩
    · obtain ⟨r', hr'⟩ := Option.isSome_iff_exists.mp hsome.symm
      exact I.ids hr'

theorem allocate {D : Deployment} {expiresAt : Int} {env : AllocateEnv} (haddr : D.api.AcceptsAddresses)
    (I : Linked s) (hok : (Op.allocate expiresAt env).Succeeds) (hpurge : PurgeSafe D.range s (.allocate expiresAt env)) :
    Linked (allocatePeer D.api D.srv s D.range.startId D.range.endId expiresAt env).2 := by
  obtain ⟨hconf, hstore, -⟩ := hok
  rw [allocatePeer_cases haddr hconf hstore]
  cases hreg : registerWireguardLease s.table D.range.startId D.range.endId expiresAt env.purgeMs env.nowStr with
  | mk result t =>
    cases result with
    | error e =>
      obtain ⟨hnone, rfl, -⟩ := registerWireguardLease_error hreg
      exact I.cleanup (hpurge hnone)
    | ok l =>
      obtain ⟨t₀, ht₀, hsel, -, rfl⟩ := registerWireguardLease_ok hreg
      have I₀ : Linked { s with table := t₀ } := by
        rcases ht₀ with rfl | ⟨hnone, rfl⟩
        · exact I
        · exact I.cleanup (hpurge hnone)
      obtain ⟨hfree, hge, hle⟩ := selectAvailableId_eq_some D.range.start_le hsel
      refine I₀.insert hfree (D.range.start_nonneg.trans hge) (hle.trans D.range.end_le) rfl fun k => ?_
      rw [get?_updatePeerKeys, Option.isSome_map, get?_insertLease_of_free hfree]
      split <;> rfl

theorem removePeer {api : WgApi} {id : ℕ} (I : Linked s) : Linked (removePeer api s id (.ok ())).2 := by
  cases hst : s.peers id with
  | none =>
    rw [removePeer_of_none hst]
    exact I
  | some st =>
    obtain ⟨-, key, hkey⟩ := I.entry hst
    refine ⟨fun {key' peer} h => ?_, fun {id' st'} h => ?_, fun h => ?_⟩
    · rw [removePeer_iface hst hkey] at h
      have hne : key' ≠ key := by
        rintro rfl
        rw [Interface.remove_self] at h
        cases h
      rw [Interface.remove_of_ne hne] at h
      obtain ⟨id', st', hst', hkey'⟩ := I.configured h
      refine ⟨id', st', ?_, hkey'⟩
      have hid : id' ≠ id := by
        rintro rfl
        rw [hst] at hst'
        cases hst'
        exact hne (encodeKey_injective (hkey'.symm.trans hkey))
      rw [removePeer_peers, Function.update_of_ne hid]
      exact hst'
    · rw [removePeer_peers] at h
      have hid : id' ≠ id := by
        rintro rfl
        rw [Function.update_self] at h
        cases h
      rw [Function.update_of_ne hid] at h
      rw [removePeer_table]
      exact I.entry h
    · rw [removePeer_table] at h
      exact I.ids h

theorem removeExpiredPeers {api : WgApi} {kernel : Int → Except String Unit} (hk : ∀ id, kernel id = .ok ())
    (listed : List Int) (I : Linked s) : Linked (removeExpiredPeers api kernel listed s) := by
  induction listed generalizing s with
  | nil => exact I
  | cons id rest ih =>
    refine ih ?_
    dsimp only
    rw [hk]
    exact I.removePeer

end Linked

section Pass
variable {D : Deployment} {s : WgState} {env : CleanupEnv}

/-- A pass whose calls succeed removes the peers listed at its query and deletes the rows expired at its
    start. -/
theorem databaseCleanup_eq (hmode : D.config.runMode = .worker) (hok : (Op.cleanup env).Succeeds) :
    databaseCleanup D.api D.config (some D.srv) s env =
      { removeExpiredPeers D.api env.removePeer (expiredPeerIds s.table env.queryMs) s with
        table := (cleanupExpiredWireguardConfigs s.table env.nowMs).2 } := by
  obtain ⟨hquery, -, hdelete⟩ := hok
  simp only [databaseCleanup, hmode, if_true, removeExpiredFromInterface, hquery, cleanupTable, hdelete,
    removeExpiredPeers_table, cleanupExpiredWireguardConfigs]

theorem Linked.databaseCleanup (hmode : D.config.runMode = .worker) (hok : (Op.cleanup env).Succeeds)
    (hclock : env.nowMs ≤ env.queryMs) (I : Linked s) :
    Linked (databaseCleanup D.api D.config (some D.srv) s env) := by
  let removed := TpnWorker.removeExpiredPeers D.api env.removePeer (expiredPeerIds s.table env.queryMs) s
  have I' : Linked removed := I.removeExpiredPeers hok.2.1 _
  have htable : removed.table = s.table := removeExpiredPeers_table ..
  have heq : TpnWorker.databaseCleanup D.api D.config (some D.srv) s env =
      { removed with table := (cleanupExpiredWireguardConfigs removed.table env.nowMs).2 } := by
    rw [databaseCleanup_eq hmode hok, htable]
  rw [heq]
  refine I'.cleanup fun r hr hexp => ?_
  rw [htable] at hr
  -- the query runs after the pass has read its start, so a row that it deletes was listed
  have hlisted : r.id ∈ expiredPeerIds s.table env.queryMs :=
    mem_expiredPeerIds.mpr ⟨r, Table.get?_of_mem hr, hexp.trans_le hclock⟩
  rw [removeExpiredPeers_peers, if_pos (List.mem_map_of_mem hlisted), Option.isNone_none]

end Pass

section Runs
variable {D : Deployment} {clock : Int} {s t : Node}

theorem Linked.run (haddr : D.api.AcceptsAddresses) (hmode : D.config.runMode = .worker) {op : Op}
    (I : Linked s.toWgState) (hok : op.Succeeds) (hpurge : PurgeSafe D.range s.toWgState op) (h : D.run s op = some t) :
    Linked t.toWgState := by
  cases op with
  | allocate expiresAt env =>
    obtain ⟨-, ht⟩ := Option.ite_none_right_eq_some.mp h
    cases ht
    exact I.allocate haddr hok hpurge
  | extend peerId expected new nowMs nowStr =>
    obtain ⟨-, ht⟩ := Option.ite_none_right_eq_some.mp h
    cases ht
    exact I.extend peerId expected new nowMs nowStr
  | cleanup env =>
    obtain ⟨⟨-, hclock⟩, ht⟩ := Option.ite_none_right_eq_some.mp h
    cases ht
    exact I.databaseCleanup hmode hok hclock

/-- In a run without unsafe purges every configured key is the key of an entry whose id has a row, and after
    a cleanup pass that row had not expired when the pass began. -/
theorem configured_key_has_row (haddr : D.api.AcceptsAddresses) (hmode : D.config.runMode = .worker)
    (hr : Reach D.run (fun s op => op.Succeeds ∧ PurgeSafe D.range s.toWgState op) (.fresh clock) s) :
    (∀ key peer, s.iface key = some peer →
      ∃ id st, s.peers id = some st ∧ st.publicKey = encodeKey key ∧ (s.table.get? (id : Int)).isSome) ∧
    ∀ env t, (Op.cleanup env).Succeeds → D.run s (.cleanup env) = some t → ∀ key peer, t.iface key = some peer →
      ∃ id st r, t.peers id = some st ∧ st.publicKey = encodeKey key ∧ t.table.get? (id : Int) = some r ∧
        env.nowMs ≤ r.expiresAt := by
  have I : Linked s.toWgState :=
    hr.inv (I := fun s => Linked s.toWgState) Linked.fresh fun _ _ _ I hc h => I.run haddr hmode hc.1 hc.2 h
  refine ⟨fun key peer hkey => ?_, fun env t hok h key peer hkey => ?_⟩
  · obtain ⟨id, st, hst, hpub⟩ := I.configured hkey
    exact ⟨id, st, hst, hpub, (I.entry hst).1⟩
  · have It : Linked t.toWgState := I.run haddr hmode hok trivial h
    obtain ⟨id, st, hst, hpub⟩ := It.configured hkey
    obtain ⟨r, hrow⟩ := Option.isSome_iff_exists.mp (It.entry hst).1
    refine ⟨id, st, r, hst, hpub, hrow, ?_⟩
    obtain ⟨-, ht⟩ := Option.ite_none_right_eq_some.mp h
    cases ht
    rw [databaseCleanup_eq hmode hok] at hrow
    exact (get?_cleanup_eq_some.mp hrow).2

/-- A pool of one slot: the first peer's lease runs out, the second allocation purges its row, and the pass
    after the second lease ran out removes the second key alone. -/
theorem purged_key_stays_configured :
    ∃ s, Reach (Deployment.sample 1).run (fun _ op => op.Succeeds) (.fresh 0) s ∧
      ∃ key peer, s.iface key = some peer ∧
        ¬∃ id st, s.peers id = some st ∧ st.publicKey = encodeKey key ∧ (s.table.get? (id : Int)).isSome := by
  have hrun : (exec (Deployment.sample 1).run (.fresh 0)
      [.sampleAllocate 0 1000 1, .sampleAllocate 2000 5000 2, .samplePass 6000]).map
        (fun s => (s.table.rows, (s.iface (knownPublicKey (.replicate 1))).isSome)) = some ([], true) := by
    decide +kernel
  obtain ⟨s, hs, heq⟩ := Option.map_eq_some_iff.mp hrun
  obtain ⟨hrows, hkey⟩ := Prod.mk.inj heq
  obtain ⟨peer, hpeer⟩ := Option.isSome_iff_exists.mp hkey
  refine ⟨s, Reach.of_exec (fun op hop => ?_) hs, _, peer, hpeer, ?_⟩
  · simp only [List.mem_cons, List.not_mem_nil, or_false] at hop
    rcases hop with rfl | rfl | rfl
    · exact Op.sampleAllocate_succeeds ..
    · exact Op.sampleAllocate_succeeds ..
    · exact Op.samplePass_succeeds ..
  · rintro ⟨id, st, -, -, hrow⟩
    rw [Table.get?, hrows] at hrow
    cases hrow

/-- Two peers, and a pass after the first lease ran out. -/
theorem configured_key_has_row_sample :
    ∃ s : Node, (s.iface (knownPublicKey (.replicate 2))).isSome ∧ (∀ key peer, s.iface key = some peer →
      ∃ id st, s.peers id = some st ∧ st.publicKey = encodeKey key ∧ (s.table.get? (id : Int)).isSome) := by
  have hrun : (execWhen (Deployment.sample 2).run (fun s op => PurgeSafe (Deployment.sample 2).range s.toWgState op)
      (.fresh 0) [.sampleAllocate 0 1000 1, .sampleAllocate 10 5000 2, .samplePass 2000]).map
        (fun s => (s.iface (knownPublicKey (.replicate 2))).isSome) = some true := by
    decide +kernel
  obtain ⟨s, hs, hkey⟩ := Option.map_eq_some_iff.mp hrun
  refine ⟨s, hkey, (configured_key_has_row WgApi.known_acceptsAddresses rfl
    (Reach.of_execWhen_and (fun op hop => ?_) hs)).1⟩
  simp only [List.mem_cons, List.not_mem_nil, or_false] at hop
  rcases hop with rfl | rfl | rfl
  · exact Op.sampleAllocate_succeeds ..
  · exact Op.sampleAllocate_succeeds ..
  · exact Op.samplePass_succeeds ..

end Runs

end TpnWorker
