import TpnWorker.Theorems.KeptLeases

/-! What holds of the ids, the public keys and the allowed IPs of all WireGuard rows: a row is added without a key under an id
    of the range, and what is stored later is the key that the call has drawn, with the address of the id. -/

namespace TpnWorker
open Keyed Transition

/-- Every row has such an id, public key and allowed IP. -/
def WgTable.KeysMeet (P : Int → Option String → Option String → Prop) (t : WgTable) : Prop :=
  ∀ id r, t.get? id = some r → P id r.publicKey r.allowedIp

/-- The ids that are allocated meet it without a key. -/
def MeetsUndrawn (P : Int → Option String → Option String → Prop) : Prop := ∀ id, 1 ≤ id → id ≤ 253 → P id none none

/-- They meet it with the public key of this secret and the address that the server gives them. -/
def MeetsDrawn (P : Int → Option String → Option String → Prop) (api : WgApi) (srv : WireGuardServer) (secret : Key) : Prop :=
  ∀ id, 1 ≤ id → id ≤ 253 → P id (some (encodeKey (api.x25519 secret))) (some (peerIp srv (Wrap.asU16 id)).display)

namespace WgTable.KeysMeet
variable {P : Int → Option String → Option String → Prop} {t t' : WgTable} {id : Int} {api : WgApi} {srv : WireGuardServer}
  {s : WgState}

theorem delete (H : t.KeysMeet P) (h : ∀ {id r}, t'.get? id = some r → t.get? id = some r) : t'.KeysMeet P :=
  fun _ _ hr => H _ _ (h hr)

/-- A registration that reserves an id of the range, or is refused. -/
theorem register {startId endId expiresAt purgeMs : Int} {nowStr : String} {result : Except AppError WgLease}
    (H : t.KeysMeet P) (hundrawn : MeetsUndrawn P) (hstart : 1 ≤ startId) (hrange : startId ≤ endId) (hend : endId ≤ 253)
    (h : registerWireguardLease t startId endId expiresAt purgeMs nowStr = (result, t')) :
    t'.KeysMeet P ∧ ∀ lease, result = .ok lease → 1 ≤ lease.peerId ∧ lease.peerId ≤ 253 := by
  cases result with
  | error e =>
    obtain ⟨-, rfl, -, -⟩ := registerWireguardLease_error h
    exact ⟨H.delete fun hr => (get?_cleanup_eq_some.mp hr).1, fun _ h => by cases h⟩
  | ok lease =>
    obtain ⟨t₀, ht₀, hselect, -, rfl⟩ := registerWireguardLease_ok h
    obtain ⟨hfree, hlow, hhigh⟩ := selectAvailableId_eq_some hrange hselect
    have H₀ : t₀.KeysMeet P := by
      rcases ht₀ with rfl | ⟨-, rfl⟩
      · exact H
      · exact H.delete fun hr => (get?_cleanup_eq_some.mp hr).1
    have hin : 1 ≤ lease.peerId ∧ lease.peerId ≤ 253 := ⟨hstart.trans hlow, hhigh.trans hend⟩
    refine ⟨fun id r hr => ?_, fun _ h => ?_⟩
    · rw [get?_insertLease_of_free hfree] at hr
      split at hr
      · next hid =>
        cases hr
        rw [hid]
        exact hundrawn _ hin.1 hin.2
      · exact H₀ _ _ hr
    · cases h
      exact hin

theorem free {expiresAt : Int} (H : t.KeysMeet P) : (markConfigAsFree t id (some expiresAt)).KeysMeet P :=
  H.delete fun hr => (get?_markConfigAsFree.mp hr).1

/-- The keys of a drawn secret are stored with the address, or nothing is. -/
theorem storeKeys {secret : Key} {psk : String} {update : Except String Unit} {result : Except AppError Unit}
    (H : t.KeysMeet P) (hdrawn : MeetsDrawn P api srv secret) (hlow : 1 ≤ id) (hhigh : id ≤ 253)
    (h : storePeerKeys api t id (encodeKey secret) psk (peerIp srv (Wrap.asU16 id)).display update = (result, t')) :
    t'.KeysMeet P := by
  rcases storePeerKeys_cases h with ⟨pub, hpub, -, -, rfl⟩ | ⟨e, -, rfl⟩
  · cases (publicKeyFromPrivate_encodeKey api secret).symm.trans hpub
    intro id' r hr
    rw [get?_updatePeerKeys] at hr
    obtain ⟨r₀, hr₀, rfl⟩ := Option.map_eq_some_iff.mp hr
    split
    · next hid =>
      rw [← Table.get?_key hr₀, hid]
      exact hdrawn _ hlow hhigh
    · exact H _ _ hr₀
  · exact H

theorem allocate (expiresAt : Int) {startId endId : Int} {env : AllocateEnv} (H : s.table.KeysMeet P)
    (hundrawn : MeetsUndrawn P) (hdrawn : MeetsDrawn P api srv env.secret) (hstart : 1 ≤ startId) (hrange : startId ≤ endId)
    (hend : endId ≤ 253) :
    (allocatePeer api srv s startId endId expiresAt env).2.table.KeysMeet P := by
  have hadded : ∀ {s₁ s₂ : WgState} {k : ℕ} {result : Except AppError PeerConfig},
      addPeer api srv s₁ k env.secret env.psk env.configurePeer = (result, s₂) →
      s₂.table = s₁.table ∧ ∀ cfg, result = .ok cfg →
        cfg.clientPrivateKey = encodeKey env.secret ∧ cfg.clientAddress = (peerIp srv k).display := by
    intro s₁ s₂ k result h
    cases result with
    | error e => exact ⟨by rw [addPeer_error h], fun _ h => by cases h⟩
    | ok cfg =>
      refine ⟨by rw [addPeer_added h], fun _ hcfg => ?_⟩
      cases hcfg
      simp only [addPeer] at h
      split at h
      · cases h
      · cases h
        exact ⟨rfl, rfl⟩
  simp only [allocatePeer]
  split
  · next hregister => exact (H.register hundrawn hstart hrange hend hregister).1
  · next lease table hregister =>
    obtain ⟨H, hin⟩ := H.register hundrawn hstart hrange hend hregister
    obtain ⟨hlow, hhigh⟩ := hin lease rfl
    split
    · next hadd =>
      obtain ⟨htable, -⟩ := hadded hadd
      dsimp only
      rw [htable]
      exact H.free
    · next cfg s' hadd =>
      obtain ⟨htable, hcfg⟩ := hadded hadd
      obtain ⟨hprivate, haddress⟩ := hcfg cfg rfl
      rw [htable, hprivate, haddress]
      split
      · next hstore =>
        dsimp only
        rw [removePeer_table]
        exact (H.storeKeys hdrawn hlow hhigh hstore).free
      · next hstore => exact H.storeKeys hdrawn hlow hhigh hstore

theorem extend (id expected new nowMs : Int) (nowStr : String) (H : t.KeysMeet P) :
    (extendWireguardLease t id expected new nowMs nowStr).2.KeysMeet P := by
  cases h : extendWireguardLease t id expected new nowMs nowStr with
  | mk result t' =>
    cases result with
    | error e =>
      obtain ⟨rfl, -, -⟩ := extendWireguardLease_error h
      exact H
    | ok lease =>
      obtain ⟨r, hr, -, -, -, hget⟩ := extendWireguardLease_ok h
      intro id' r' hr'
      rw [show Table.get? _ id' = _ from hget id'] at hr'
      split at hr'
      · next hid =>
        cases hr'
        rw [hid]
        exact H _ r hr
      · exact H _ _ hr'

theorem cleanup {config : AppConfig} {wgServer : Option WireGuardServer} {env : CleanupEnv} (H : s.table.KeysMeet P) :
    (databaseCleanup api config wgServer s env).table.KeysMeet P := by
  have hremoved : (removeExpiredFromInterface api wgServer s env).table = s.table := by
    unfold removeExpiredFromInterface
    split
    · exact removeExpiredPeers_table
    · rfl
  unfold databaseCleanup
  split
  · dsimp only
    rw [hremoved]
    exact H.delete fun hr => (get?_cleanupTable_eq_some.mp hr).1
  · exact H

theorem extendWireguard {W : Worker} {stores : Stores} {req : LeaseRequest} {ref : String} {expected : Int} {env : LeaseEnv}
    (H : stores.table.KeysMeet P) : (extendWireguard W stores req ref expected env).2.table.KeysMeet P := by
  simp only [TpnWorker.extendWireguard]
  split
  · exact H
  · next peerId _ =>
    have H' := H.extend peerId expected (newExpiresAt env.nowMs req.leaseSeconds) env.updateMs env.nowStr
    split
    · exact H
    · split
      · next hext =>
        rw [hext] at H'
        exact H'
      · next hext =>
        rw [hext] at H'
        split
        · exact H'
        · split <;> exact H'

theorem request {W : Worker} {stores : Stores} {req : LeaseRequest} {env : LeaseEnv} (H : stores.table.KeysMeet P)
    (hundrawn : MeetsUndrawn P) (hdrawn : ∀ srv, W.wgServer = some srv → MeetsDrawn P W.api srv env.allocate.secret) :
    (getWorkerConfig W stores req env).2.table.KeysMeet P := by
  let range := PeerRange.ofConfig W.config
  have hstart := PeerRange.one_le_ofConfig W.config
  have hend := PeerRange.ofConfig_le W.config
  simp only [getWorkerConfig]
  split
  · split
    · exact H
    · split
      · exact H.extendWireguard
      · split
        · rw [extendSocks5_toWgState]
          exact H
        · exact H
  · split
    · simp only [allocateWireguard]
      split
      · split
        · next hregister => exact (H.register hundrawn hstart range.start_le hend hregister).1
        · next hregister => exact (H.register hundrawn hstart range.start_le hend hregister).1
      · split
        · exact H
        · next srv hserver =>
          have H' := H.allocate (newExpiresAt env.nowMs req.leaseSeconds) hundrawn (hdrawn srv hserver) hstart range.start_le
            hend
          split
          · next hallocate =>
            rw [hallocate] at H'
            exact H'
          · next hallocate =>
            rw [hallocate] at H'
            exact H'
    · split
      · rw [allocateSocks5_toWgState]
        exact H
      · exact H

/-- A background operation whose calls draw such keys. -/
theorem background {R : Registrar} {a : BackgroundAct} {b b' : Background} (H : b.table.KeysMeet P) (hundrawn : MeetsUndrawn P)
    (hdrawn : ∀ env ∈ a.leases, ∀ srv, R.wgServer = some srv → MeetsDrawn P R.api srv env.allocate.secret)
    (h : b.step R a = some b') : b'.table.KeysMeet P := by
  refine Background.keeps_step (P := fun stores => stores.table.KeysMeet P) (fun req env stores hreq H => ?_)
    (fun env stores _ H => H.cleanup) H h
  refine H.request hundrawn (hdrawn env ?_)
  rcases hreq with rfl | ⟨henv, -⟩
  · exact List.mem_singleton_self env
  · exact henv

end WgTable.KeysMeet

end TpnWorker
