import TpnWorker.Wireguard.Server

/-! Peer allocation (`src/wireguard/peer_manager.rs`): reserve a row, add the peer to the interface and the
    map, store its keys in the row. -/

namespace TpnWorker

/-- Result of a peer allocation. -/
structure PeerAllocation where
  peerConfig : PeerConfig
  peerId : Int
  expiresAt : Int
deriving DecidableEq

/-- What one `allocate_peer` call meets: the clock of its purge, the time text of its row, the keys that the
    random generator draws, and the outcomes of the calls that can fail. -/
structure AllocateEnv where
  purgeMs : Int
  nowStr : String
  secret : Key
  psk : Key
  configurePeer : Except String Unit
  storeKeys : Except String Unit
  removePeer : Except String Unit

/-- Store peer key material in the row for restart recovery. -/
def storePeerKeys (api : WgApi) (t : WgTable) (peerId : Int) (privateKey presharedKey allowedIp : String)
    (update : Except String Unit) : Except AppError Unit × WgTable :=
  match publicKeyFromPrivate api privateKey with
  | .error e => (.error (.internal s!"Key derivation failed: {e}"), t)
  | .ok clientPublicKey =>
    match update with
    | .error e => (.error (.db e), t)
    | .ok () => (.ok (), updatePeerKeys t peerId privateKey clientPublicKey presharedKey allowedIp)

/-- Allocate a new peer, with a rollback of the reservation when a later step fails. -/
def allocatePeer (api : WgApi) (srv : WireGuardServer) (s : WgState) (startId endId expiresAt : Int)
    (env : AllocateEnv) : Except AppError PeerAllocation × WgState :=
  match registerWireguardLease s.table startId endId expiresAt env.purgeMs env.nowStr with
  | (.error e, table) => (.error e, { s with table })
  | (.ok lease, table) =>
    let peerId := lease.peerId
    match addPeer api srv { s with table } (Wrap.asU16 peerId) env.secret env.psk env.configurePeer with
    | (.error e, s) => (.error e, { s with table := markConfigAsFree s.table peerId (some expiresAt) })
    | (.ok cfg, s) =>
      match storePeerKeys api s.table peerId cfg.clientPrivateKey cfg.presharedKey cfg.clientAddress env.storeKeys with
      | (.error e, table) =>
        let s := (removePeer api { s with table } (Wrap.asU16 peerId) env.removePeer).2
        (.error (.internal s!"Failed to persist peer keys: {e.message}"),
          { s with table := markConfigAsFree s.table peerId (some expiresAt) })
      | (.ok (), table) => (.ok ⟨cfg, peerId, expiresAt⟩, { s with table })

theorem storePeerKeys_encodeKey (api : WgApi) (t : WgTable) (peerId : Int) (secret : Key) (psk ip : String) :
    storePeerKeys api t peerId (encodeKey secret) psk ip (.ok ()) =
      (.ok (), updatePeerKeys t peerId (encodeKey secret) (encodeKey (api.x25519 secret)) psk ip) := by
  simp only [storePeerKeys, publicKeyFromPrivate_encodeKey]

/-- Storing keys either writes them, with the public key that belongs to the private one, or changes nothing. -/
theorem storePeerKeys_cases {api : WgApi} {t t' : WgTable} {peerId : Int} {priv psk ip : String}
    {update : Except String Unit} {result : Except AppError Unit}
    (h : storePeerKeys api t peerId priv psk ip update = (result, t')) :
    (∃ pub, publicKeyFromPrivate api priv = .ok pub ∧ update = .ok () ∧ result = .ok () ∧
        t' = updatePeerKeys t peerId priv pub psk ip) ∨
      ∃ e, result = .error e ∧ t' = t := by
  simp only [storePeerKeys] at h
  split at h
  · cases h
    exact Or.inr ⟨_, rfl, rfl⟩
  · next pub hpub =>
    split at h
    · cases h
      exact Or.inr ⟨_, rfl, rfl⟩
    · cases h
      exact Or.inl ⟨pub, hpub, rfl, rfl, rfl⟩

/-- Storing keys keeps every row and its expiry. -/
theorem storePeerKeys_expiresAt {api : WgApi} {t t' : WgTable} {peerId : Int} {priv psk ip : String}
    {update : Except String Unit} {result : Except AppError Unit}
    (h : storePeerKeys api t peerId priv psk ip update = (result, t')) (k : Int) :
    (t'.get? k).map (·.expiresAt) = (t.get? k).map (·.expiresAt) := by
  rcases storePeerKeys_cases h with ⟨pub, -, -, -, rfl⟩ | ⟨e, -, rfl⟩
  · rw [get?_updatePeerKeys, Option.map_map]
    refine Option.map_congr fun r _ => ?_
    simp only [Function.comp_apply]
    split <;> rfl
  · rfl

section Success
variable {api : WgApi} {srv : WireGuardServer} {s s' : WgState} {startId endId expiresAt : Int} {env : AllocateEnv}

theorem addPeer_ok {peerId : ℕ} {secret psk : Key} (haddr : api.addrMask (allowedIpText srv peerId) = .ok ()) :
    addPeer api srv s peerId secret psk (.ok ()) =
      (.ok (clientConfig srv peerId (newPeerState api srv peerId secret psk)),
        { s with
          iface := s.iface.configure (api.x25519 secret) ⟨some psk, [allowedIpText srv peerId], some 25⟩
          peers := Function.update s.peers peerId (some (newPeerState api srv peerId secret psk)) }) := by
  simp only [addPeer, newPeerState, generateKeypair, generatePresharedKey, addPeerToInterface_ok haddr]

/-- When the calls succeed, a reserved id ends with its key configured, its map entry and its stored keys;
    without a reservation only the purge has changed the table. -/
theorem allocatePeer_cases (haddr : api.AcceptsAddresses)
    (hconf : env.configurePeer = .ok ()) (hstore : env.storeKeys = .ok ()) :
    allocatePeer api srv s startId endId expiresAt env =
      match registerWireguardLease s.table startId endId expiresAt env.purgeMs env.nowStr with
      | (.error e, table) => (.error e, { s with table })
      | (.ok lease, table) =>
        let peerId := Wrap.asU16 lease.peerId
        let state := newPeerState api srv peerId env.secret env.psk
        (.ok ⟨clientConfig srv peerId state, lease.peerId, expiresAt⟩,
          { table := updatePeerKeys table lease.peerId state.privateKey state.publicKey state.presharedKey
              state.allowedIp.display
            iface := s.iface.configure (api.x25519 env.secret) ⟨some env.psk, [allowedIpText srv peerId], some 25⟩
            peers := Function.update s.peers peerId (some state) }) := by
  rw [allocatePeer]
  split
  · rfl
  · simp only [hconf, addPeer_ok (haddr.subnet _), hstore, clientConfig_newPeerState, storePeerKeys_encodeKey]
    rfl

end Success

end TpnWorker
