import TpnWorker.Theorems.Exclusive

/-! Restart transparency. The row of an unexpired lease carries the keys that its call returned, as long as
    no other call stores its own keys there: the UPDATE of `store_peer_keys` goes by peer id alone. -/

namespace TpnWorker
open Keyed Transition

/-- What `allocate_peer` has returned, if it has returned Ok. -/
def Call.allocation (srv : WireGuardServer) (call : Call) : Option PeerAllocation :=
  match call.pc with
  | .allocated id st => some ⟨clientConfig srv (Wrap.asU16 id) st, id, call.expiresAt⟩
  | _ => none

/-- The call whose key UPDATE runs. -/
def Act.stores? : Act → Option ℕ
  | .call c (.store (.ok ())) => some c
  | _ => none

/-- The id whose row gets the keys of the call. -/
def Pc.storing? : Pc → Option Int
  | .storing id _ => some id
  | _ => none

/-- The key UPDATE of a call does not find a row whose own call has returned Ok. -/
def StoreSafe (D : Deployment) (s : Sys) (a : Act) : Prop :=
  ∀ c ∈ a.stores?, ∀ call ∈ s.calls c, ∀ id ∈ call.pc.storing?, ∀ _r ∈ s.table.get? id, ∀ c' ∈ s.holder id,
    ∀ call' ∈ s.calls c', call'.allocation D.srv = none

instance (D : Deployment) (s : Sys) (a : Act) : Decidable (StoreSafe D s a) :=
  inferInstanceAs (Decidable (∀ c ∈ a.stores?, ∀ call ∈ s.calls c, ∀ id ∈ call.pc.storing?, ∀ _r ∈ s.table.get? id,
    ∀ c' ∈ s.holder id, ∀ call' ∈ s.calls c', _ = none))

def RestartSafe (D : Deployment) (s : Sys) (a : Act) : Prop := RollbackSafe s a ∧ StoreSafe D s a

instance (D : Deployment) (s : Sys) (a : Act) : Decidable (RestartSafe D s a) := inferInstanceAs (Decidable (_ ∧ _))

/-- The second row carries what the first one does. -/
def WgRow.KeepsPeer (r₀ r : WgRow) : Prop := ∀ st, r₀.Carries st → r.Carries st

theorem WgRow.KeepsPeer.refl (r : WgRow) : r.KeepsPeer r := fun _ h => h

/-- Between its INSERT and its return a call has drawn the keys of its peer, and the row of a call that has
    returned Ok carries them. -/
structure Stored (D : Deployment) (s : Sys) : Prop where
  drawn : ∀ {c id st}, s.peerId? c = some id → s.state? c = some st →
    ∃ secret psk, st = newPeerState D.api D.srv (Wrap.asU16 id) secret psk
  row : ∀ {c e id st r}, s.calls c = some ⟨e, .allocated id st⟩ → s.holder id = some c → s.table.get? id = some r →
    r.Carries st

namespace Stored
variable {D : Deployment} {s t : Sys} {c p : ℕ} {e : Int}

theorem fresh (clock : Int) : Stored D (.fresh clock) where
  drawn h := by cases h
  row h := by cases h

theorem of_calls (S : Stored D s) (hcalls : t.calls = s.calls) (hholder : t.holder = s.holder)
    (hrows : s.table.RowsFrom WgRow.KeepsPeer t.table) : Stored D t where
  drawn {c id st} hid hst := by
    rw [Sys.peerId?, hcalls] at hid
    rw [Sys.state?, hcalls] at hst
    exact S.drawn hid hst
  row {c e id st r} hc hh hr := by
    obtain ⟨r₀, hr₀, hkeep⟩ := hrows id r hr
    exact hkeep st (S.row (hcalls ▸ hc) (hholder ▸ hh) hr₀)

theorem goto {pc : Pc} {table : WgTable} (S : Stored D s)
    (hdrawn : ∀ id st, pc.peerId? = some id → pc.state? = some st →
      ∃ secret psk, st = newPeerState D.api D.srv (Wrap.asU16 id) secret psk)
    (hpc : ∀ id st, pc ≠ .allocated id st)
    (hrows : s.table.RowsFrom WgRow.KeepsPeer table) :
    Stored D { s.goto c e pc with table } where
  drawn {c' id st} hid hst := by
    by_cases hne : c' = c
    · subst hne
      have hc : (s.goto c' e pc).calls c' = some ⟨e, pc⟩ := Function.update_self ..
      exact hdrawn id st ((Sys.peerId?_eq hc).symm.trans hid) ((Sys.state?_eq hc).symm.trans hst)
    · have hc : (s.goto c e pc).calls c' = s.calls c' := Function.update_of_ne hne ..
      rw [Sys.peerId?, show _ = _ from hc] at hid
      rw [Sys.state?, show _ = _ from hc] at hst
      exact S.drawn hid hst
  row {c' e' id st r} hc hh hr := by
    rcases Function.update_some_cases hc with ⟨hne, heq⟩ | ⟨hne, hc⟩
    · subst hne
      cases heq
      exact absurd rfl (hpc id st)
    · obtain ⟨r₀, hr₀, hkeep⟩ := hrows id r hr
      exact hkeep st (S.row hc hh hr₀)

theorem rows_refl (t : WgTable) : t.RowsFrom WgRow.KeepsPeer t := .refl WgRow.KeepsPeer.refl t

theorem goto_undrawn (pc : Pc) {table : WgTable} (S : Stored D s) (hst : pc.state? = none)
    (hrows : s.table.RowsFrom WgRow.KeepsPeer table) :
    Stored D { s.goto c e pc with table } :=
  S.goto (fun _ _ _ h => by cases hst.symm.trans h) (fun _ _ h => by cases h ▸ hst) hrows

theorem insert {id : Int} {nowStr : String} (S : Stored D s) (hfree : s.table.get? id = none) :
    Stored D { (s.goto c e (.configuring id)).grant c id e with
      table := insertLease s.table id e nowStr, lock := none } where
  drawn hid hst := (S.goto_undrawn (c := c) (e := e) (.configuring id) rfl (rows_refl s.table)).drawn hid hst
  row {c' e' id' st r} hc hh hr := by
    rcases Function.update_some_cases hc with ⟨hne, heq⟩ | ⟨hne, hc⟩
    · subst hne
      cases heq
    · rcases Function.update_some_cases hh with ⟨hid, heq⟩ | ⟨hid, hh⟩
      · subst hid
        cases heq
        exact absurd rfl hne
      · have hr' := (get?_insertLease_of_free hfree).symm.trans hr
        rw [if_neg hid] at hr'
        exact S.row hc
          hh hr'

theorem updatePeerKeys_row {table : WgTable} {id id' : Int} {priv pub psk ip : String} {r : WgRow}
    (h : (updatePeerKeys table id priv pub psk ip).get? id' = some r) :
    (id' = id ∧ r.privateKey = some priv ∧ r.publicKey = some pub ∧ r.presharedKey = some psk ∧
      r.allowedIp = some ip ∧ (table.get? id).isSome) ∨ (id' ≠ id ∧ table.get? id' = some r) := by
  rw [get?_updatePeerKeys, Option.map_eq_some_iff] at h
  obtain ⟨r₀, hr₀, rfl⟩ := h
  have hid := Table.get?_key hr₀
  by_cases hne : id' = id
  · subst hne
    rw [if_pos hid]
    exact Or.inl ⟨rfl, rfl, rfl, rfl, rfl, Option.isSome_iff_exists.mpr ⟨r₀, hr₀⟩⟩
  · rw [if_neg fun h => hne (hid.symm.trans h)]
    exact Or.inr ⟨hne, hr₀⟩

theorem store {id : Int} {st : PeerState} {pub : String} (S : Stored D s) (hc : s.calls c = some ⟨e, .storing id st⟩)
    (hpub : publicKeyFromPrivate D.api st.privateKey = .ok pub)
    (hsafe : ∀ r, s.table.get? id = some r → ∀ c', s.holder id = some c' → ∀ e' id' st',
      s.calls c' ≠ some ⟨e', .allocated id' st'⟩) :
    Stored D { s.goto c e (.allocated id st) with
      table := updatePeerKeys s.table id st.privateKey pub st.presharedKey st.allowedIp.display } where
  drawn {c' id' st'} hid hst := by
    have hpeer : (s.goto c e (.allocated id st)).peerId? = s.peerId? :=
      Sys.peerId?_goto_self (show s.peerId? c = some id from Sys.peerId?_eq hc)
    have hstate : (s.goto c e (.allocated id st)).state? = s.state? :=
      Sys.state?_goto_self (show s.state? c = some st from Sys.state?_eq hc)
    exact S.drawn ((congrFun hpeer c').symm.trans hid) ((congrFun hstate c').symm.trans hst)
  row {c' e' id' st' r} hc' hh hr := by
    obtain ⟨secret, psk, hst⟩ := S.drawn (Sys.peerId?_eq hc) (Sys.state?_eq hc)
    rcases updatePeerKeys_row hr with ⟨rfl, hpriv, hpub', hpsk, hip, hsome⟩ | ⟨hne, hr₀⟩
    · by_cases hcc : c' = c
      · subst hcc
        cases (Function.update_self c' _ s.calls).symm.trans hc'
        -- the public key is derived from the private key, as the one in the map was
        have hkey : pub = st.publicKey := by
          rw [hst] at hpub ⊢
          exact (Except.ok.inj ((publicKeyFromPrivate_encodeKey D.api secret).symm.trans hpub)).symm
        exact ⟨hpriv, hkey ▸ hpub', hpsk, hip⟩
      · obtain ⟨r₀, hr₀⟩ := Option.isSome_iff_exists.mp hsome
        exact absurd ((Function.update_of_ne hcc _ s.calls).symm.trans hc') (hsafe r₀ hr₀ c' hh e' id' st')
    · have hcc : c' ≠ c := by
        rintro rfl
        cases (Function.update_self c' _ s.calls).symm.trans hc'
        exact hne rfl
      exact S.row ((Function.update_of_ne hcc _ s.calls).symm.trans hc') hh hr₀

theorem goto_same {pc : Pc} (pc' : Pc) (S : Stored D s) (hc : s.calls c = some ⟨e, pc⟩) (hid : pc'.peerId? = pc.peerId?)
    (hst : pc'.state? = pc.state?) (hpc : ∀ id st, pc' ≠ .allocated id st) : Stored D (s.goto c e pc') :=
  S.goto (fun _ _ h h' => S.drawn ((Sys.peerId?_eq hc).trans (hid.symm.trans h)) ((Sys.state?_eq hc).trans (hst.symm.trans h')))
    hpc (rows_refl s.table)

theorem callStep {a : CallAct} (I : Leased D s) (S : Stored D s) (hsafe : StoreSafe D s (.call c a))
    (h : D.callStep s c a = some t) : Stored D t := by
  cases a with
  | start e =>
    obtain ⟨-, rfl⟩ := Step.start_inv h
    exact S.goto_undrawn _ rfl (rows_refl s.table)
  | acquire =>
    obtain ⟨e, -, -, rfl⟩ := Step.acquire_inv h
    exact (S.goto_undrawn (c := c) (e := e) .selecting rfl (rows_refl s.table)).of_calls rfl rfl (rows_refl _)
  | lockTimeout =>
    obtain ⟨e, -, rfl⟩ := Step.lockTimeout_inv h
    exact S.goto_undrawn _ rfl (rows_refl s.table)
  | select =>
    obtain ⟨e, pc, -, -, -, ⟨id, -, rfl⟩ | rfl | rfl⟩ := Step.select_inv h
    · exact S.goto_undrawn _ rfl (rows_refl s.table)
    · exact S.goto_undrawn _ rfl (rows_refl s.table)
    · exact (S.goto_undrawn (c := c) (e := e) (.failed _) rfl (rows_refl s.table)).of_calls rfl rfl (rows_refl _)
  | purge nowMs =>
    obtain ⟨e, -, -, rfl⟩ := Step.purge_inv h
    exact S.goto_undrawn _ rfl (rowsFrom_cleanup WgRow.KeepsPeer.refl s.table nowMs)
  | insert nowStr =>
    obtain ⟨e, id, hc, rfl⟩ := Step.insert_inv h
    exact S.insert (I.inserting hc).1
  | dbError error =>
    obtain ⟨e, pc, -, -, -, rfl⟩ := Step.dbError_inv h
    exact (S.goto_undrawn (c := c) (e := e) (.failed _) rfl (rows_refl s.table)).of_calls rfl rfl (rows_refl _)
  | configure secret psk kernel =>
    obtain ⟨e, id, result, iface, hc, -, rfl⟩ := Step.configure_inv h
    cases result with
    | ok =>
      have J : Stored D (s.goto c e (.mapping id (newPeerState D.api D.srv (Wrap.asU16 id) secret psk))) := by
        refine S.goto (fun id' st hid hst => ?_) (fun _ _ h => by cases h) (rows_refl s.table)
        cases hid
        cases hst
        exact ⟨secret, psk, rfl⟩
      exact J.of_calls rfl rfl (rows_refl s.table)
    | error error =>
      have J : Stored D (s.goto c e (.freeing id error)) := S.goto_undrawn _ rfl (rows_refl s.table)
      exact J.of_calls rfl rfl (rows_refl s.table)
  | mapInsert =>
    obtain ⟨e, id, st, hc, rfl⟩ := Step.mapInsert_inv h
    exact (S.goto_same (.storing id st) hc rfl rfl fun _ _ h => by cases h).of_calls rfl rfl (rows_refl s.table)
  | store update =>
    obtain ⟨e, id, st, result, table, hc, hstore, rfl⟩ := Step.store_inv h
    rcases storePeerKeys_cases hstore with ⟨pub, hpub, rfl, rfl, rfl⟩ | ⟨error, rfl, rfl⟩
    · refine S.store hc hpub fun r hr c' hh e' id' st' hc' => ?_
      cases hsafe c rfl _ hc id rfl r hr c' hh _ hc'
    · exact S.goto_undrawn _ rfl (rows_refl _)
  | mapRemove =>
    obtain ⟨e, id, error, -, rfl | ⟨taken, -, rfl⟩⟩ := Step.mapRemove_inv h
    · exact S.goto_undrawn _ rfl (rows_refl s.table)
    · exact (S.goto_undrawn (c := c) (e := e) (.unconfiguring id taken error) rfl (rows_refl s.table)).of_calls rfl
        rfl (rows_refl s.table)
  | kernelRemove kernel =>
    obtain ⟨e, id, taken, error, -, rfl⟩ := Step.kernelRemove_inv h
    exact (S.goto_undrawn (c := c) (e := e) (.freeing id error) rfl (rows_refl s.table)).of_calls rfl rfl
      (rows_refl s.table)
  | free delete =>
    cases delete with
    | ok =>
      obtain ⟨e, id, error, -, rfl⟩ := Step.free_ok_inv h
      exact (S.goto_undrawn (c := c) (e := e) (.failed error) rfl (rows_refl s.table)).of_calls rfl rfl
        (rowsFrom_free WgRow.KeepsPeer.refl s.table id e)
    | error text =>
      obtain ⟨e, id, error, -, rfl⟩ := Step.free_error_inv h
      exact S.goto_undrawn _ rfl (rows_refl s.table)

theorem passStep {a : PassAct} (S : Stored D s) (h : D.passStep s p a = some t) : Stored D t := by
  cases a with
  | start =>
    obtain ⟨-, rfl⟩ := Step.passStart_inv h
    exact S.of_calls rfl rfl (rows_refl s.table)
  | query nowMs rows =>
    obtain ⟨cutoff, -, ⟨-, rfl⟩ | rfl⟩ := Step.query_inv h <;> exact S.of_calls rfl rfl (rows_refl s.table)
  | mapRemove =>
    obtain ⟨cutoff, id, rest, -, ⟨-, rfl⟩ | ⟨taken, -, rfl⟩⟩ := Step.passMapRemove_inv h <;>
      exact S.of_calls rfl rfl (rows_refl s.table)
  | kernelRemove kernel =>
    obtain ⟨cutoff, id, taken, rest, -, rfl⟩ := Step.passKernelRemove_inv h
    exact S.of_calls rfl rfl (rows_refl s.table)
  | delete rows =>
    obtain ⟨cutoff, -, rfl⟩ := Step.delete_inv h
    exact S.of_calls rfl rfl (rowsFrom_cleanupTable WgRow.KeepsPeer.refl s.table cutoff rows)

theorem step {a : Act} (I : Leased D s) (S : Stored D s) (hsafe : StoreSafe D s a) (h : D.step s a = some t) :
    Stored D t := by
  cases a with
  | tick now =>
    obtain ⟨-, rfl⟩ := Step.tick_inv h
    exact S.of_calls rfl rfl (rows_refl s.table)
  | call c a => exact S.callStep I hsafe h
  | extend peerId expected new nowMs nowStr =>
    obtain ⟨-, rfl | ⟨r, table, hr, -, rfl, hget⟩⟩ := Step.extend_inv h
    · exact S
    · refine S.of_calls rfl rfl fun id r' hr' => ?_
      rw [show Table.get? _ id = _ from hget id] at hr'
      split at hr'
      · next hid =>
        subst hid
        cases hr'
        exact ⟨r, hr, fun st h => ⟨h.privateKey, h.publicKey, h.presharedKey, h.allowedIp⟩⟩
      · exact ⟨r', hr', fun _ h => h⟩
  | pass p a => exact S.passStep h

theorem of_reach {clock : Int} (hr : Reach D.step (RestartSafe D) (.fresh clock) s) : Stored D s :=
  hr.inv_of_reached (fresh clock) fun _ _ _ hr S hsafe h => S.step (.of_reach hr) hsafe.2 h

end Stored

/-- A server `srv` that was created after a crash in the state `s`, once it has restored its peers. -/
def Sys.restart (D : Deployment) (s : Sys) (srv : WireGuardServer) (iface : Interface) (nowMs : Int)
    (kernel : Int → Except String Unit) : WgState :=
  (restorePeers D.api srv ⟨s.table, fun _ => none, iface⟩ nowMs kernel).2

section Restart
variable {D : Deployment} {clock nowMs : Int} {s : Sys} {c : ℕ} {call : Call} {alloc : PeerAllocation} {l : Lease}
  {keys keys' : List WgKeyPair} {secret secret' : Key} {iface : Interface} {kernel : Int → Except String Unit}

/-- After a crash in any state and a restart, the lease of a call that returned Ok has its peer back, if it is
    still unexpired: the same map entry, a configured key, and the client config that the call returned. -/
theorem restart_restores (haddr : D.api.AcceptsAddresses)
    (hnew : WireGuardServer.new D.api D.config keys secret = (.ok D.srv, keys'))
    (hr : Reach D.step (RestartSafe D) (.fresh clock) s) (hkernel : ∀ id, kernel id = .ok ())
    (hnow : s.clock ≤ nowMs) (hc : s.calls c = some call) (halloc : call.allocation D.srv = some alloc)
    (hl : s.leases c = some l) (hlive : nowMs < l.expiresAt) :
    ∃ srv st, (WireGuardServer.new D.api D.config keys' secret').1 = .ok srv ∧ s.state? c = some st ∧
      (s.restart D srv iface nowMs kernel).peers (Wrap.asU16 alloc.peerId) = some st ∧
      (∀ key, st.publicKey = encodeKey key → ((s.restart D srv iface nowMs kernel).iface key).isSome) ∧
      getClientConfig srv (s.restart D srv iface nowMs kernel).peers (Wrap.asU16 alloc.peerId) =
        .ok alloc.peerConfig := by
  obtain ⟨e, pc⟩ := call
  cases pc with
  | allocated id st =>
    cases halloc
    have I : Leased D s := .of_reach hr
    have S : Stored D s := .of_reach hr
    obtain ⟨_, hl', rfl, hb⟩ := I.granted hc rfl
    cases hl'.symm.trans hl
    obtain ⟨hholder, r, hrow, hexp⟩ :=
      (Held.of_reach (hr.mono fun _ _ h => h.1)).row I hl hb (hnow.trans_lt hlive)
    have hcarries := S.row hc hholder hrow
    obtain ⟨secret₀, psk, rfl⟩ := S.drawn (Sys.peerId?_eq hc) (Sys.state?_eq hc)
    obtain ⟨hmem, hid⟩ := Table.get?_eq_some_iff.mp hrow
    rw [← hid] at hcarries hc
    obtain ⟨hpeers, hkey⟩ := restorePeers_carries (s := ⟨s.table, fun _ => none, iface⟩) haddr hkernel
      (fun r hr => I.row_range (Table.get?_of_mem hr)) hmem (hexp ▸ hlive) hcarries
    refine ⟨D.srv, _, congrArg Prod.fst (WireGuardServer.new_restart hnew), Sys.state?_eq hc, ?_, ?_, ?_⟩
    · rw [← hid]
      exact hpeers
    · intro key hk
      rw [← encodeKey_injective hk]
      exact hkey
    · rw [← hid]
      simp only [getClientConfig, Sys.restart, hpeers]
  | _ => cases halloc

/-- A call that configured peer 1 has yet to store its keys when its lease runs out; peer 1 goes to a second
    call, which returns, and then the first call stores its keys. -/
def lateStore : List Act :=
  Act.reserve 1 100 ++ [.call 1 (.configure (.replicate 1) (.replicate 7) (.ok ())), .call 1 .mapInsert, .tick 200] ++
    Act.reservePurged 2 1000 200 ++ Act.install 2 2 ++ [.call 1 (.store (.ok ()))]

/-- The allocation of peer 1 with the secret of 32 bytes `b`. -/
def sampleAllocation (b : UInt8) (expiresAt : Int) : PeerAllocation :=
  let srv := (Deployment.sample 1).srv
  ⟨clientConfig srv 1 (newPeerState .known srv 1 (.replicate b) (.replicate 7)), 1, expiresAt⟩

/-- Restarted, the server has the keys of the first call under the lease of the second. -/
theorem restored_with_other_keys :
    ∃ s call, Reach (Deployment.sample 1).step (fun _ _ => True) (.fresh 0) s ∧ s.calls 2 = some call ∧
      call.allocation (Deployment.sample 1).srv = some (sampleAllocation 2 1000) ∧
      s.leases 2 = some ⟨1, 1000, false⟩ ∧ s.clock < 300 ∧
      getClientConfig (Deployment.sample 1).srv
          (s.restart (.sample 1) (Deployment.sample 1).srv .empty 300 fun _ => .ok ()).peers 1 =
        .ok (sampleAllocation 1 100).peerConfig ∧
      (sampleAllocation 1 100).peerConfig ≠ (sampleAllocation 2 1000).peerConfig := by
  have hrun : (exec (Deployment.sample 1).step (.fresh 0) lateStore).any fun s => decide
      ((∃ call ∈ s.calls 2, call.allocation (Deployment.sample 1).srv = some (sampleAllocation 2 1000)) ∧
        s.leases 2 = some ⟨1, 1000, false⟩ ∧ s.clock < 300 ∧
        ((s.restart (.sample 1) (Deployment.sample 1).srv .empty 300 fun _ => .ok ()).peers 1).map
          (clientConfig (Deployment.sample 1).srv 1) = some (sampleAllocation 1 100).peerConfig) := by
    decide +kernel
  obtain ⟨s, hs, hfacts⟩ := (Option.any_eq_true _ _).mp hrun
  obtain ⟨⟨call, hc, halloc⟩, hl, hclock, hpeer⟩ := of_decide_eq_true hfacts
  obtain ⟨st, hst, hconfig⟩ := Option.map_eq_some_iff.mp hpeer
  refine ⟨s, call, Reach.of_exec (fun _ _ => trivial) hs, hc, halloc, hl, hclock, ?_, by decide +kernel⟩
  simp only [getClientConfig, hst, hconfig]

theorem restart_restores_sample :
    ∃ s : Sys, ∃ srv st, (WireGuardServer.new .known (Deployment.sample 1).config [generateKeypair .known (.replicate 3)]
        (.replicate 1)).1 = .ok srv ∧ s.state? 1 = some st ∧
      (s.restart (.sample 1) srv .empty 20 fun _ => .ok ()).peers (Wrap.asU16 1) = some st ∧
      (∀ key, st.publicKey = encodeKey key →
        ((s.restart (.sample 1) srv .empty 20 fun _ => .ok ()).iface key).isSome) ∧
      getClientConfig srv (s.restart (.sample 1) srv .empty 20 fun _ => .ok ()).peers (Wrap.asU16 1) =
        .ok (sampleAllocation 1 1000).peerConfig := by
  have hrun : (execWhen (Deployment.sample 1).step (RestartSafe (.sample 1)) (.fresh 0)
      (Act.reserve 1 1000 ++ Act.install 1 1 ++ [.tick 10])).any fun s => decide
      ((∃ call ∈ s.calls 1, call.allocation (Deployment.sample 1).srv = some (sampleAllocation 1 1000)) ∧
        s.leases 1 = some ⟨1, 1000, false⟩ ∧ s.clock ≤ 20) := by
    decide +kernel
  obtain ⟨s, hs, hfacts⟩ := (Option.any_eq_true _ _).mp hrun
  obtain ⟨⟨call, hc, halloc⟩, hl, hclock⟩ := of_decide_eq_true hfacts
  exact ⟨s, restart_restores WgApi.known_acceptsAddresses (Deployment.sample_new 1) (Reach.of_execWhen hs)
    (fun _ => rfl) hclock hc halloc hl (by decide)⟩

end Restart

end TpnWorker
