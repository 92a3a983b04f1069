import TpnWorker.Concurrent.Socks5
import TpnWorker.Concurrent.Step
import TpnWorker.Lib.Simulation

/-! Operations that no other step interrupts: the steps of one `allocate_peer` call, of one cleanup pass and of one
    `get_socks5_config` call do what the function does as a whole. A worker that does one operation at a time is so a case of
    the concurrent one. -/

namespace TpnWorker
open Keyed Transition

/-! ### An allocation -/

/-- The answer of a call that has ended. -/
def Pc.answer? (srv : WireGuardServer) (expiresAt : Int) : Pc → Option (Except AppError PeerAllocation)
  | allocated id state => some (.ok ⟨clientConfig srv (Wrap.asU16 id) state, id, expiresAt⟩)
  | failed error => some (.error error)
  | _ => none

/-- A step of a call that meets these values and outcomes. -/
def CallAct.Meets (expiresAt : Int) (env : AllocateEnv) : CallAct → Prop
  | start e => e = expiresAt
  | acquire | select | mapInsert | mapRemove => True
  | purge nowMs => nowMs = env.purgeMs
  | insert nowStr => nowStr = env.nowStr
  | configure secret psk kernel => secret = env.secret ∧ psk = env.psk ∧ kernel = env.configurePeer
  | store update => update = env.storeKeys
  | kernelRemove kernel => kernel = env.removePeer
  | free delete => delete = .ok ()
  | lockTimeout | dbError _ => False

/-- Call `c` takes the step. -/
def Act.OfCall (c : ℕ) (expiresAt : Int) (env : AllocateEnv) : Act → Prop
  | call c' a => c' = c ∧ a.Meets expiresAt env
  | _ => False

/-- The steps of call `c` alone lead from `s` to `t`, where the call stands at `pc` and has not the lock. -/
structure CallAlone (D : Deployment) (c : ℕ) (expiresAt : Int) (env : AllocateEnv) (pc : Pc) (s t : Sys) : Prop where
  reach : Reach D.step (fun _ a => a.OfCall c expiresAt env) s t
  calls : t.calls = Function.update s.calls c (some ⟨expiresAt, pc⟩)
  passes : t.passes = s.passes
  lock : t.lock = none
  clock : t.clock = s.clock

section Allocation
variable {D : Deployment} {s t u : Sys} {c : ℕ} {id expiresAt : Int} {env : AllocateEnv} {pc pc' : Pc}

theorem CallAlone.trans (H : CallAlone D c expiresAt env pc s t) (H' : CallAlone D c expiresAt env pc' t u) :
    CallAlone D c expiresAt env pc' s u where
  reach := H.reach.trans H'.reach
  calls := by rw [H'.calls, H.calls, Function.update_idem]
  passes := H'.passes.trans H.passes
  lock := H'.lock
  clock := H'.clock.trans H.clock

/-- The place of a call after `register_wireguard_lease`. -/
def Pc.registered : Except AppError WgLease → Pc
  | .ok lease => configuring lease.peerId
  | .error error => failed error

/-- The steps up to the INSERT are `register_wireguard_lease`. -/
theorem register_alone {answer : Except AppError WgLease} {table : WgTable} (hcall : s.calls c = none) (hlock : s.lock = none)
    (hclock : env.purgeMs ≤ s.clock)
    (h : registerWireguardLease s.table D.range.startId D.range.endId expiresAt env.purgeMs env.nowStr = (answer, table)) :
    ∃ t, CallAlone D c expiresAt env (.registered answer) s t ∧ t.toWgState = { s.toWgState with table } := by
  let purged := (cleanupExpiredWireguardConfigs s.table env.purgeMs).2
  have hpurge : (cleanupExpiredWireguardConfigs s.table env.purgeMs).2 = purged := rfl
  simp only [registerWireguardLease, tryAllocate] at h
  cases hfree : selectAvailableId s.table D.range.startId D.range.endId with
  | some id =>
    simp only [hfree] at h
    cases h
    refine ⟨{ (s.goto c expiresAt (.configuring id)).grant c id expiresAt with
      table := insertLease s.table id expiresAt env.nowStr, lock := none }, ?_, rfl⟩
    refine ⟨.of_exec_map (Act.call c) [.start expiresAt, .acquire, .select, .insert env.nowStr] ?_ ?_, rfl, rfl, rfl, rfl⟩
    · simp [Act.OfCall, CallAct.Meets]
    · simp [exec, Deployment.step, Deployment.callStep, Sys.goto, Sys.grant, hcall, hlock, hfree]
  | none =>
    simp only [hfree, hpurge] at h
    cases hpurged : selectAvailableId purged D.range.startId D.range.endId with
    | some id =>
      simp only [hpurged] at h
      cases h
      refine ⟨{ (s.goto c expiresAt (.configuring id)).grant c id expiresAt with
        table := insertLease purged id expiresAt env.nowStr, lock := none }, ?_, rfl⟩
      refine ⟨.of_exec_map (Act.call c) [.start expiresAt, .acquire, .select, .purge env.purgeMs, .select, .insert env.nowStr] ?_ ?_, rfl, rfl, rfl, rfl⟩
      · simp [Act.OfCall, CallAct.Meets]
      · simp [exec, Deployment.step, Deployment.callStep, Sys.goto, Sys.grant, hcall, hlock, hfree, hclock, hpurge, hpurged]
    | none =>
      simp only [hpurged] at h
      obtain ⟨rfl, rfl⟩ := Prod.mk.inj h
      refine ⟨{ s.goto c expiresAt (.failed (exhausted purged D.range.startId D.range.endId)) with
        table := purged, lock := none }, ?_, rfl⟩
      refine ⟨.of_exec_map (Act.call c) [.start expiresAt, .acquire, .select, .purge env.purgeMs, .select] ?_ ?_, rfl, rfl, rfl, rfl⟩
      · simp [Act.OfCall, CallAct.Meets]
      · simp [exec, Deployment.step, Deployment.callStep, Sys.goto, hcall, hlock, hfree, hclock, hpurge, hpurged]

section Installation
variable {state : PeerState} {error : AppError} {iface : Interface} {table : WgTable}

/-- The interface refuses the peer: the row is deleted. -/
theorem refused_alone (hcall : s.calls c = some ⟨expiresAt, .configuring id⟩) (hlock : s.lock = none)
    (hstate : newPeerState D.api D.srv (Wrap.asU16 id) env.secret env.psk = state)
    (hadd : addPeerToInterface D.api s.iface state.publicKey state.presharedKey (allowedIpText D.srv (Wrap.asU16 id))
      env.configurePeer = (.error error, iface)) :
    ∃ t, CallAlone D c expiresAt env (.failed error) s t ∧
      t.toWgState = { s.toWgState with iface, table := markConfigAsFree s.table id (some expiresAt) } := by
  let refused : Sys := { s.goto c expiresAt (.failed error) with iface, drawn := D.api.x25519 env.secret :: s.drawn }
  refine ⟨{ refused.rollBack c id expiresAt with table := markConfigAsFree s.table id (some expiresAt) }, ?_, rfl⟩
  refine ⟨.of_exec_map (Act.call c) [.configure env.secret env.psk env.configurePeer, .free (.ok ())] ?_ ?_, rfl, rfl, hlock, rfl⟩
  · simp [Act.OfCall, CallAct.Meets]
  · simp [exec, Deployment.step, Deployment.callStep, Sys.goto, hcall, hstate, hadd, refused]

/-- The keys are stored: the peer is allocated. -/
theorem stored_alone (hcall : s.calls c = some ⟨expiresAt, .configuring id⟩) (hlock : s.lock = none)
    (hstate : newPeerState D.api D.srv (Wrap.asU16 id) env.secret env.psk = state)
    (hadd : addPeerToInterface D.api s.iface state.publicKey state.presharedKey (allowedIpText D.srv (Wrap.asU16 id))
      env.configurePeer = (.ok (), iface))
    (hstore : storePeerKeys D.api s.table id state.privateKey state.presharedKey state.allowedIp.display env.storeKeys =
      (.ok (), table)) :
    ∃ t, CallAlone D c expiresAt env (.allocated id state) s t ∧
      t.toWgState = ⟨table, Function.update s.peers (Wrap.asU16 id) (some state), iface⟩ := by
  refine ⟨{ s.goto c expiresAt (.allocated id state) with
    table, peers := Function.update s.peers (Wrap.asU16 id) (some state), iface, drawn := D.api.x25519 env.secret :: s.drawn },
    ?_, rfl⟩
  refine ⟨.of_exec_map (Act.call c) [.configure env.secret env.psk env.configurePeer, .mapInsert, .store env.storeKeys] ?_ ?_, rfl, rfl, hlock, rfl⟩
  · simp [Act.OfCall, CallAct.Meets]
  · simp [exec, Deployment.step, Deployment.callStep, Sys.goto, hcall, hstate, hadd, hstore]

/-- The keys are not stored: the peer is removed and the row is deleted. -/
theorem unstored_alone (hcall : s.calls c = some ⟨expiresAt, .configuring id⟩) (hlock : s.lock = none)
    (hstate : newPeerState D.api D.srv (Wrap.asU16 id) env.secret env.psk = state)
    (hadd : addPeerToInterface D.api s.iface state.publicKey state.presharedKey (allowedIpText D.srv (Wrap.asU16 id))
      env.configurePeer = (.ok (), iface))
    (hstore : storePeerKeys D.api s.table id state.privateKey state.presharedKey state.allowedIp.display env.storeKeys =
      (.error error, table)) :
    ∃ t, CallAlone D c expiresAt env (.failed (.internal s!"Failed to persist peer keys: {error.message}")) s t ∧
      t.toWgState = ⟨markConfigAsFree table id (some expiresAt), Function.update s.peers (Wrap.asU16 id) none,
        (removeFromInterface D.api iface (Wrap.asU16 id) state env.removePeer).2⟩ := by
  let removed : Sys := { s.goto c expiresAt (.failed (.internal s!"Failed to persist peer keys: {error.message}")) with
    table, peers := Function.update s.peers (Wrap.asU16 id) none,
    iface := (removeFromInterface D.api iface (Wrap.asU16 id) state env.removePeer).2, drawn := D.api.x25519 env.secret :: s.drawn }
  refine ⟨{ removed.rollBack c id expiresAt with table := markConfigAsFree table id (some expiresAt) }, ?_, rfl⟩
  refine ⟨.of_exec_map (Act.call c) [.configure env.secret env.psk env.configurePeer, .mapInsert, .store env.storeKeys, .mapRemove,
    .kernelRemove env.removePeer, .free (.ok ())] ?_ ?_, rfl, rfl, hlock, rfl⟩
  · simp [Act.OfCall, CallAct.Meets]
  · simp [exec, Deployment.step, Deployment.callStep, Sys.goto, hcall, hstate, hadd, hstore, removed]

end Installation

/-- The steps of an `allocate_peer` call that nothing interrupts do what the function does. -/
theorem allocatePeer_alone {answer : Except AppError PeerAllocation} {wg : WgState} (hcall : s.calls c = none)
    (hlock : s.lock = none) (hclock : env.purgeMs ≤ s.clock)
    (h : allocatePeer D.api D.srv s.toWgState D.range.startId D.range.endId expiresAt env = (answer, wg)) :
    ∃ t pc, CallAlone D c expiresAt env pc s t ∧ pc.answer? D.srv expiresAt = some answer ∧ t.toWgState = wg := by
  simp only [allocatePeer] at h
  split at h
  · next error table hregister =>
    obtain ⟨t, H, ht⟩ := register_alone hcall hlock hclock hregister
    cases h
    exact ⟨t, _, H, rfl, ht⟩
  · next lease table hregister =>
    obtain ⟨t, H, ht⟩ := register_alone hcall hlock hclock hregister
    have hcall' : t.calls c = some ⟨expiresAt, .configuring lease.peerId⟩ := by
      rw [H.calls]
      exact Function.update_self ..
    let state := newPeerState D.api D.srv (Wrap.asU16 lease.peerId) env.secret env.psk
    rw [← ht] at h
    cases hadd : addPeerToInterface D.api t.iface state.publicKey state.presharedKey
        (allowedIpText D.srv (Wrap.asU16 lease.peerId)) env.configurePeer with
    | mk result iface =>
      cases result with
      | error error =>
        obtain ⟨u, H', hu⟩ := refused_alone hcall' H.lock rfl hadd
        simp only [addPeer, state, hadd] at h
        cases h
        exact ⟨u, _, H.trans H', rfl, hu⟩
      | ok =>
        cases hstore : storePeerKeys D.api t.table lease.peerId state.privateKey state.presharedKey state.allowedIp.display
            env.storeKeys with
        | mk stored table =>
          simp only [addPeer, hadd, state, clientConfig, hstore] at h
          cases stored with
          | error error =>
            obtain ⟨u, H', hu⟩ := unstored_alone hcall' H.lock rfl hadd hstore
            simp only [removePeer, Function.update_self] at h
            cases h
            refine ⟨u, _, H.trans H', rfl, hu.trans ?_⟩
            simp
          | ok =>
            obtain ⟨u, H', hu⟩ := stored_alone hcall' H.lock rfl hadd hstore
            cases h
            exact ⟨u, _, H.trans H', rfl, hu⟩

end Allocation

/-! ### A cleanup pass -/

/-- Pass `p` takes the step, with these clock readings and outcomes, or the clock goes on to its query. -/
def Act.OfPass (p : ℕ) (env : CleanupEnv) (s : Sys) : Act → Prop
  | pass p' .start | pass p' .mapRemove => p' = p
  | pass p' (.query nowMs rows) => p' = p ∧ nowMs = env.queryMs ∧ rows = env.expiredPeerIds
  | pass p' (.kernelRemove kernel) => p' = p ∧ ∀ cutoff id taken rest,
      s.passes p = some ⟨cutoff, .unconfiguring id taken rest⟩ → kernel = env.removePeer id
  | pass p' (.delete rows) => p' = p ∧ rows = env.deleteRows
  | tick now => now = env.queryMs
  | _ => False

/-- The steps of pass `p` alone lead from `s` to `t`, where the pass stands at `pc`. -/
structure PassAlone (D : Deployment) (p : ℕ) (env : CleanupEnv) (cutoff : Int) (pc : PassPc) (s t : Sys) : Prop where
  reach : Reach D.step (fun s a => a.OfPass p env s) s t
  passes : t.passes = Function.update s.passes p (some ⟨cutoff, pc⟩)
  calls : t.calls = s.calls
  lock : t.lock = s.lock
  clock : t.clock = env.queryMs

section Cleanup
variable {D : Deployment} {s t u : Sys} {p : ℕ} {cutoff : Int} {env : CleanupEnv} {pc pc' : PassPc}

theorem PassAlone.trans (H : PassAlone D p env cutoff pc s t) (H' : PassAlone D p env cutoff pc' t u) :
    PassAlone D p env cutoff pc' s u where
  reach := H.reach.trans H'.reach
  passes := by rw [H'.passes, H.passes, Function.update_idem]
  calls := H'.calls.trans H.calls
  lock := H'.lock.trans H.lock
  clock := H'.clock

theorem PassAlone.single {a : Act} (hmeets : a.OfPass p env s) (h : D.step s a = some t)
    (passes : t.passes = Function.update s.passes p (some ⟨cutoff, pc⟩)) (calls : t.calls = s.calls) (lock : t.lock = s.lock)
    (clock : t.clock = env.queryMs) : PassAlone D p env cutoff pc s t :=
  ⟨.single a hmeets h, passes, calls, lock, clock⟩

/-- The steps of the loop are the removal of the listed peers. -/
theorem removal_alone {listed : List Int} (hpass : s.passes p = some ⟨cutoff, .remaining listed⟩)
    (hclock : s.clock = env.queryMs) :
    ∃ t, PassAlone D p env cutoff .deleting s t ∧
      t.toWgState = removeExpiredPeers D.api env.removePeer listed s.toWgState := by
  induction listed generalizing s with
  | nil =>
    refine ⟨s, ⟨.refl, ?_, rfl, rfl, hclock⟩, rfl⟩
    exact (Function.update_eq_self_iff.mpr hpass.symm).symm
  | cons id rest ih =>
    cases hpeer : s.peers (Wrap.asU16 id) with
    | none =>
      obtain ⟨t, H, ht⟩ := ih (s := s.passTo p cutoff (.remaining rest)) (Function.update_self ..) hclock
      have hmap : PassAlone D p env cutoff (.remaining rest) s (s.passTo p cutoff (.remaining rest)) := by
        refine .single (a := .pass p .mapRemove) rfl ?_ rfl rfl rfl hclock
        simp [Deployment.step, Deployment.passStep, hpass, PassPc.remaining, hpeer]
      refine ⟨t, hmap.trans H, ht.trans ?_⟩
      simp [removeExpiredPeers, removePeer, hpeer, Sys.passTo]
    | some taken =>
      let unmapped : Sys := { s.passTo p cutoff (.unconfiguring id taken rest) with
        peers := Function.update s.peers (Wrap.asU16 id) none }
      let removed : Sys := { unmapped.passTo p cutoff (.remaining rest) with
        iface := (removeFromInterface D.api s.iface (Wrap.asU16 id) taken (env.removePeer id)).2 }
      have hunmapped : unmapped.passes p = some ⟨cutoff, .unconfiguring id taken rest⟩ := Function.update_self ..
      obtain ⟨t, H, ht⟩ := ih (s := removed) (Function.update_self ..) hclock
      have hmap : PassAlone D p env cutoff (.unconfiguring id taken rest) s unmapped := by
        refine .single (a := .pass p .mapRemove) rfl ?_ rfl rfl rfl hclock
        simp [Deployment.step, Deployment.passStep, hpass, PassPc.remaining, hpeer, unmapped]
      have hkernel : PassAlone D p env cutoff (.remaining rest) unmapped removed := by
        refine .single (a := .pass p (.kernelRemove (env.removePeer id))) ⟨rfl, ?_⟩ ?_ rfl rfl rfl hclock
        · intro cutoff' id' taken' rest' h
          cases hunmapped.symm.trans h
          rfl
        · simp [Deployment.step, Deployment.passStep, removed, unmapped, Sys.passTo]
      refine ⟨t, (hmap.trans hkernel).trans H, ht.trans ?_⟩
      simp [removeExpiredPeers, removePeer, hpeer, removed, unmapped, Sys.passTo]

/-- The steps of a cleanup pass that nothing interrupts do what the function does. -/
theorem databaseCleanup_alone (hpass : s.passes p = none) (hmode : D.config.runMode = .worker) (hclock : s.clock = env.nowMs)
    (hquery : env.nowMs ≤ env.queryMs) :
    ∃ t, PassAlone D p env env.nowMs .finished s t ∧
      t.toWgState = databaseCleanup D.api D.config (some D.srv) s.toWgState env := by
  let ready : Sys := { s.passTo p env.nowMs .querying with clock := env.queryMs }
  have hready : PassAlone D p env env.nowMs .querying s ready := by
    have hstart : D.step s (.pass p .start) = some (s.passTo p env.nowMs .querying) := by
      simp [Deployment.step, Deployment.passStep, hpass, hclock]
    have htick : D.step (s.passTo p env.nowMs .querying) (.tick env.queryMs) = some ready :=
      if_pos (show s.clock ≤ env.queryMs by omega)
    exact ⟨.step (.tick env.queryMs) (.single (.pass p .start) rfl hstart) rfl htick, rfl, rfl, rfl, rfl⟩
  have hready' : ready.passes p = some ⟨env.nowMs, .querying⟩ := Function.update_self ..
  -- the DELETE follows the loop, or at once a query that fails
  have hdelete : ∀ t wg, PassAlone D p env env.nowMs .deleting s t → t.toWgState = wg →
      ∃ u, PassAlone D p env env.nowMs .finished s u ∧
        u.toWgState = { wg with table := cleanupTable wg.table env.nowMs env.deleteRows } := by
    rintro t _ H rfl
    have ht : t.passes p = some ⟨env.nowMs, .deleting⟩ := by
      rw [H.passes]
      exact Function.update_self ..
    refine ⟨{ t.passTo p env.nowMs .finished with table := cleanupTable t.table env.nowMs env.deleteRows }, ?_, rfl⟩
    refine H.trans (.single (a := .pass p (.delete env.deleteRows)) ⟨rfl, rfl⟩ ?_ rfl rfl rfl H.clock)
    simp [Deployment.step, Deployment.passStep, ht]
  simp only [databaseCleanup, if_pos hmode, removeExpiredFromInterface]
  cases hrows : env.expiredPeerIds with
  | error e =>
    refine hdelete (ready.passTo p env.nowMs .deleting) _ (hready.trans ?_) rfl
    refine .single (a := .pass p (.query env.queryMs (.error e))) ⟨rfl, rfl, hrows.symm⟩ ?_ rfl rfl rfl rfl
    simp [Deployment.step, Deployment.passStep, hready']
  | ok =>
    let listed := expiredPeerIds s.table env.queryMs
    have hlisted : PassAlone D p env env.nowMs (.remaining listed) ready (ready.passTo p env.nowMs (.remaining listed)) := by
      refine .single (a := .pass p (.query env.queryMs (.ok ()))) ⟨rfl, rfl, hrows.symm⟩ ?_ rfl rfl rfl rfl
      simp [Deployment.step, Deployment.passStep, hquery, ready, listed, Sys.passTo]
    obtain ⟨t, H, ht⟩ := removal_alone (s := ready.passTo p env.nowMs (.remaining listed)) (Function.update_self ..) hlisted.clock
    exact hdelete t _ ((hready.trans hlisted).trans H) ht

end Cleanup

/-! ### A worker that does one operation at a time -/

/-- The stores and the clock are those of the sequential worker, the lock is free, and so are all numbers of calls and passes
    from some point on. -/
structure Sys.Settled (s : Sys) (d : Node) : Prop where
  stores : s.toWgState = d.toWgState
  clock : s.clock = d.clock
  lock : s.lock = none
  unused : ∃ n, ∀ k, n ≤ k → s.calls k = none ∧ s.passes k = none

section Sequential
variable {D : Deployment} {s t : Sys} {d d' : Node} {n k : ℕ} {clock : Int}

theorem Sys.Settled.fresh (clock : Int) : (Sys.fresh clock).Settled (.fresh clock) :=
  ⟨rfl, rfl, rfl, 0, fun _ _ => ⟨rfl, rfl⟩⟩

theorem Sys.Settled.tick {now : Int} (H : s.Settled d) (h : d.clock ≤ now) :
    Reach D.step (fun _ _ => True) s { s with clock := now } :=
  .single (.tick now) trivial (if_pos (H.clock.trans_le h))

/-- An extension is one step. -/
theorem extend_alone {nowMs : Int} (peerId expected new : Int) (nowStr : String) (h : nowMs ≤ s.clock) :
    ∃ t, D.step s (.extend peerId expected new nowMs nowStr) = some t ∧
      (t.clock = s.clock ∧ t.lock = s.lock ∧ t.calls = s.calls ∧ t.passes = s.passes) ∧
      t.toWgState = { s.toWgState with table := (extendWireguardLease s.table peerId expected new nowMs nowStr).2 } := by
  simp only [Deployment.step, Deployment.extendStep, if_pos h]
  cases extendWireguardLease s.table peerId expected new nowMs nowStr with
  | mk answer table =>
    cases answer with
    | ok => exact ⟨_, rfl, ⟨rfl, rfl, rfl, rfl⟩, rfl⟩
    | error => exact ⟨_, rfl, ⟨rfl, rfl, rfl, rfl⟩, rfl⟩

/-- One operation of the sequential worker is a run of the concurrent one. -/
theorem Sys.Settled.run {op : Op} (H : s.Settled d) (hmode : D.config.runMode = .worker) (h : D.run d op = some d') :
    ∃ t, Reach D.step (fun _ _ => True) s t ∧ t.Settled d' := by
  obtain ⟨n, hunused⟩ := H.unused
  cases op with
  | allocate expiresAt env =>
    obtain ⟨hclock, hd⟩ := Option.ite_none_right_eq_some.mp h
    cases hd
    cases hallocate : allocatePeer D.api D.srv d.toWgState D.range.startId D.range.endId expiresAt env with
    | mk answer wg =>
      obtain ⟨t, pc, halone, -, ht⟩ := allocatePeer_alone (s := { s with clock := env.purgeMs }) (hunused n le_rfl).1 H.lock
        le_rfl (H.stores ▸ hallocate)
      refine ⟨t, (H.tick hclock).trans (halone.reach.mono fun _ _ _ => trivial), ht, halone.clock, halone.lock, n + 1, ?_⟩
      intro k hk
      rw [halone.calls, halone.passes, Function.update_of_ne (by omega)]
      exact hunused k (by omega)
  | extend peerId expected new nowMs nowStr =>
    obtain ⟨hclock, hd⟩ := Option.ite_none_right_eq_some.mp h
    cases hd
    let ready : Sys := { s with clock := nowMs }
    obtain ⟨t, hstep, hframe, ht⟩ := extend_alone (D := D) (s := { s with clock := nowMs }) peerId expected new nowStr le_rfl
    obtain ⟨htclock, hlock, hcalls, hpasses⟩ := hframe
    refine ⟨t, (H.tick hclock).step _ trivial hstep, ?_, htclock, hlock.trans H.lock, n, ?_⟩
    · rw [ht]
      exact congrArg (fun wg : WgState =>
        { wg with table := (extendWireguardLease wg.table peerId expected new nowMs nowStr).2 }) H.stores
    · rw [hcalls, hpasses]
      exact hunused
  | cleanup env =>
    obtain ⟨⟨hclock, hquery⟩, hd⟩ := Option.ite_none_right_eq_some.mp h
    cases hd
    obtain ⟨t, halone, ht⟩ := databaseCleanup_alone (s := { s with clock := env.nowMs }) (hunused n le_rfl).2 hmode rfl hquery
    refine ⟨t, (H.tick hclock).trans (halone.reach.mono fun _ _ _ => trivial), ?_, halone.clock, halone.lock.trans H.lock, n + 1, ?_⟩
    · rw [ht]
      exact congrArg (fun wg => databaseCleanup D.api D.config (some D.srv) wg env) H.stores
    · intro k hk
      rw [halone.calls, halone.passes, Function.update_of_ne (by omega)]
      exact hunused k (by omega)

/-- Every run of the sequential worker is a run of the concurrent one. -/
theorem sequential_run {C : Node → Op → Prop} (hmode : D.config.runMode = .worker) (h : Reach D.run C (.fresh clock) d) :
    ∃ s, Reach D.step (fun _ _ => True) (.fresh clock) s ∧ s.Settled d :=
  h.simulate (R := fun d (s : Sys) => s.Settled d) (.fresh clock) fun _ _ _ _ _ H _ hop => H.run hmode hop

end Sequential

/-! ### A SOCKS5 allocation -/

/-- The answer of a call that has ended. -/
def SockPc.answer? : SockPc → Option (Except AppError Socks5Config)
  | handedOut config | leased config => some (.ok config)
  | failed error => some (.error error)
  | _ => none

/-- A step of a call with these values. -/
def SockCallAct.Meets (priority : Bool) (expiresAt : Int) (env : Socks5Env) : SockCallAct → Prop
  | start priority' e => priority' = priority ∧ e = expiresAt
  | acquire | select | cleanup => True
  | pick choice => choice = env.choice
  | handOut nowMs | mark nowMs => nowMs = env.nowMs
  | lockTimeout | dbError _ => False

/-- Call `c` takes the step. -/
def SockAct.OfCall (c : ℕ) (priority : Bool) (expiresAt : Int) (env : Socks5Env) : SockAct → Prop
  | call c' a => c' = c ∧ a.Meets priority expiresAt env
  | _ => False

section Socks5
variable {prioritySlots expiresAt : Int} {s : SockSys} {c : ℕ} {priority : Bool} {env : Socks5Env}

/-- The steps of a `get_socks5_config` call that nothing interrupts do what the function does. -/
theorem getSocks5Config_alone {answer : Except AppError Socks5Config} {table : Socks5Table} (hcall : s.calls c = none)
    (hlock : s.lock = none) (hclock : s.clock = env.cleanupMs)
    (h : getSocks5Config s.table expiresAt priority prioritySlots env = (answer, table)) :
    ∃ t pc, Reach (SockSys.step prioritySlots) (fun _ a => a.OfCall c priority expiresAt env) s t ∧
      pc.answer? = some answer ∧ t.table = table ∧ t.calls = Function.update s.calls c (some ⟨expiresAt, pc⟩) ∧
      t.credentials = s.credentials ∧ t.lock = none ∧ t.clock = s.clock := by
  cases priority with
  | true =>
    simp only [getSocks5Config, getSocks5ConfigPriority, if_true] at h
    split at h
    · next hpick =>
      cases h
      refine ⟨s.goto c expiresAt (.failed noPriorityConfigs), _, .of_exec_map (SockAct.call c) [.start true expiresAt, .pick env.choice] ?_ ?_,
        rfl, rfl, rfl, rfl, hlock, rfl⟩
      · simp [SockAct.OfCall, SockCallAct.Meets]
      · simp [exec, SockSys.step, SockSys.callStep, SockSys.goto, hcall, hpick]
    · next config hpick =>
      cases h
      refine ⟨{ s.goto c expiresAt (.handedOut config) with table := updatePriority s.table config expiresAt env.nowMs }, _,
        .of_exec_map (SockAct.call c) [.start true expiresAt, .pick env.choice, .handOut env.nowMs] ?_ ?_, rfl, rfl, rfl, rfl, hlock, rfl⟩
      · simp [SockAct.OfCall, SockCallAct.Meets]
      · simp [exec, SockSys.step, SockSys.callStep, SockSys.goto, hcall, hpick]
  | false =>
    let cleaned := (cleanupExpiredSocks5Configs s.table env.cleanupMs).2
    have hclean : (cleanupExpiredSocks5Configs s.table env.cleanupMs).2 = cleaned := rfl
    simp only [getSocks5Config, getSocks5ConfigNonPriority, Bool.false_eq_true, if_false, hclean] at h
    split at h
    · next config hfree =>
      cases h
      refine ⟨{ (s.goto c expiresAt (.leased config)).grant c config expiresAt with
        table := markUnavailable s.table config expiresAt env.nowMs, lock := none }, _,
        .of_exec_map (SockAct.call c) [.start false expiresAt, .acquire, .select, .mark env.nowMs] ?_ ?_,
        rfl, rfl, rfl, rfl, rfl, rfl⟩
      · simp [SockAct.OfCall, SockCallAct.Meets]
      · simp [exec, SockSys.step, SockSys.callStep, SockSys.goto, SockSys.grant, hcall, hlock, hfree]
    · next hnone =>
      split at h
      · next config hfree =>
        cases h
        refine ⟨{ (s.goto c expiresAt (.leased config)).grant c config expiresAt with
          table := markUnavailable cleaned config expiresAt env.nowMs, lock := none }, _,
          .of_exec_map (SockAct.call c) [.start false expiresAt, .acquire, .select, .cleanup, .select, .mark env.nowMs] ?_ ?_,
          rfl, rfl, rfl, rfl, rfl, rfl⟩
        · simp [SockAct.OfCall, SockCallAct.Meets]
        · simp [exec, SockSys.step, SockSys.callStep, SockSys.goto, SockSys.grant, hcall, hlock, hnone, hclock, hclean, hfree]
      · next hfull =>
        obtain ⟨rfl, rfl⟩ := Prod.mk.inj h
        refine ⟨{ s.goto c expiresAt (.failed noNonPriorityConfigs) with table := cleaned, lock := none }, _,
          .of_exec_map (SockAct.call c) [.start false expiresAt, .acquire, .select, .cleanup, .select] ?_ ?_,
          rfl, rfl, rfl, rfl, rfl, rfl⟩
        · simp [SockAct.OfCall, SockCallAct.Meets]
        · simp [exec, SockSys.step, SockSys.callStep, SockSys.goto, hcall, hlock, hnone, hclock, hclean, hfull]

end Socks5

end TpnWorker
