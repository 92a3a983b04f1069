import Mathlib.Logic.Function.Basic
import TpnWorker.Config
import TpnWorker.Db.Wireguard
import TpnWorker.Lib.Ipv4
import TpnWorker.Lib.Wrap
import TpnWorker.Wireguard.Keygen

/-! The embedded WireGuard server (`src/wireguard/server.rs`): the `peers` map, the kernel interface, and
    the operations on both. A call into the kernel takes its outcome as an argument. -/

namespace TpnWorker

/-- State for a single peer on the server. -/
structure PeerState where
  peerId : ℕ
  privateKey : String
  publicKey : String
  presharedKey : String
  allowedIp : Ipv4Addr
deriving DecidableEq

/-- A JSON value, as far as the worker's answers use it. -/
inductive Json where
  | str (text : String)
  | num (value : Int)
  | obj (fields : List (String × Json))

/-- Client config returned after peer allocation. -/
structure PeerConfig where
  peerId : ℕ
  clientPrivateKey : String
  clientAddress : String
  serverPublicKey : String
  presharedKey : String
  endpoint : String
  dns : String
deriving DecidableEq

namespace PeerConfig

/-- Render as WireGuard INI text. -/
def toText (cfg : PeerConfig) : String :=
  s!"[Interface]\nAddress = {cfg.clientAddress}\nPrivateKey = {cfg.clientPrivateKey}\nListenPort = 51820\n" ++
    s!"DNS = {cfg.dns}\n\n[Peer]\nPublicKey = {cfg.serverPublicKey}\nPresharedKey = {cfg.presharedKey}\n" ++
    s!"AllowedIPs = 0.0.0.0/0, ::/0\nEndpoint = {cfg.endpoint}"

/-- Render as JSON value. -/
def toJson (cfg : PeerConfig) : Json :=
  .obj [("interface", .obj [("Address", .str cfg.clientAddress), ("PrivateKey", .str cfg.clientPrivateKey),
      ("ListenPort", .num 51820), ("DNS", .str cfg.dns)]),
    ("peer", .obj [("PublicKey", .str cfg.serverPublicKey), ("PresharedKey", .str cfg.presharedKey),
      ("AllowedIPs", .str "0.0.0.0/0, ::/0"), ("Endpoint", .str cfg.endpoint)])]

end PeerConfig

/-- The part of a server that does not change while it runs. -/
structure WireGuardServer where
  serverPublicKey : String
  listenPort : ℕ
  subnetBase : Ipv4Addr
  endpointHost : String
  dns : String

/-- Load the newest server keys, or store the drawn ones. A row of `worker_wg_server` is a key pair; the
    newest stands last. -/
def loadOrCreateServerKeys (api : WgApi) (keys : List WgKeyPair) (secret : Key) : WgKeyPair × List WgKeyPair :=
  match keys.getLast? with
  | some row => (row, keys)
  | none => (generateKeypair api secret, keys ++ [generateKeypair api secret])

/-- Create the server, with the server keys of the database. -/
def WireGuardServer.new (api : WgApi) (config : AppConfig) (keys : List WgKeyPair) (secret : Key) :
    Except AppError WireGuardServer × List WgKeyPair :=
  match Ipv4Addr.parse config.wgSubnet with
  | none => (.error (.internal "Invalid WG subnet: invalid IPv4 address syntax"), keys)
  | some subnetBase =>
    let (row, keys) := loadOrCreateServerKeys api keys secret
    (.ok ⟨row.publicKey, config.wireguardServerPort, subnetBase, config.serverPublicHost, config.wgDns⟩, keys)

/-- A peer as it was configured under its public key. -/
structure KernelPeer where
  presharedKey : Option Key
  allowedIps : List String
  persistentKeepaliveInterval : Option ℕ
deriving DecidableEq

/-- The `peers` map. -/
abbrev Peers := ℕ → Option PeerState

/-- An allowed IP that is this address, alone or with its prefix length. -/
def AllowsAddress (allowedIp : String) (address : Ipv4Addr) : Prop :=
  allowedIp = address.display ∨ allowedIp = address.display ++ "/32"

instance (allowedIp : String) (address : Ipv4Addr) : Decidable (AllowsAddress allowedIp address) :=
  inferInstanceAs (Decidable (_ ∨ _))

theorem AllowsAddress.of_display {address address' : Ipv4Addr} (h : AllowsAddress address.display address') :
    address = address' := by
  rcases h with h | h
  · exact Ipv4Addr.display_injective h
  · have hslash : '/' ∈ address.display.toList := by
      rw [h, String.toList_append]
      exact List.mem_append_right _ (by decide)
    exact absurd (Ipv4Addr.mem_display hslash) (by decide)

theorem AllowsAddress.of_subnet {address address' : Ipv4Addr} (h : AllowsAddress (address.display ++ "/32") address') :
    address = address' := by
  rcases h with h | h
  · exact (AllowsAddress.of_display (Or.inr h.symm)).symm
  · rw [← String.toList_inj, String.toList_append, String.toList_append, List.append_cancel_right_eq, String.toList_inj] at h
    exact Ipv4Addr.display_injective h

/-- The kernel interface: the peers configured on it by public key, and for each address the peer that has it as an allowed
    IP now. -/
structure Interface where
  peers : Key → Option KernelPeer
  routes : Ipv4Addr → Option Key

namespace Interface

instance : CoeFun Interface fun _ => Key → Option KernelPeer := ⟨Interface.peers⟩

/-- An interface without peers. -/
def empty : Interface := ⟨fun _ => none, fun _ => none⟩

/-- The addresses without those of this peer. -/
def routesWithout (iface : Interface) (key : Key) (address : Ipv4Addr) : Option Key :=
  if iface.routes address = some key then none else iface.routes address

/-- `configure_peer`. The peer has its new allowed IPs and no others, and the kernel takes them away from the peers that had
    them. -/
def configure (iface : Interface) (key : Key) (peer : KernelPeer) : Interface where
  peers := Function.update iface.peers key (some peer)
  routes address :=
    if ∃ allowedIp ∈ peer.allowedIps, AllowsAddress allowedIp address then some key else iface.routesWithout key address

/-- `remove_peer`. -/
def remove (iface : Interface) (key : Key) : Interface where
  peers := Function.update iface.peers key none
  routes := iface.routesWithout key

section Updates
variable {iface : Interface} {key key' : Key} {peer : KernelPeer} {address : Ipv4Addr}

@[simp] theorem configure_self (iface : Interface) (key : Key) (peer : KernelPeer) :
    iface.configure key peer key = some peer := Function.update_self ..

theorem configure_of_ne (h : key' ≠ key) : iface.configure key peer key' = iface key' := Function.update_of_ne h ..

@[simp] theorem remove_self (iface : Interface) (key : Key) : iface.remove key key = none := Function.update_self ..

theorem remove_of_ne (h : key' ≠ key) : iface.remove key key' = iface key' := Function.update_of_ne h ..

theorem isSome_configure (h : (iface key').isSome) : (iface.configure key peer key').isSome := by
  by_cases hkey : key' = key
  · rw [hkey, configure_self, Option.isSome_some]
  · rw [configure_of_ne hkey]
    exact h

theorem routes_configure_self {allowedIp : String} (hmem : allowedIp ∈ peer.allowedIps) (h : AllowsAddress allowedIp address) :
    (iface.configure key peer).routes address = some key := if_pos ⟨allowedIp, hmem, h⟩

theorem routes_remove_of_ne (h : iface.routes address = some key') (hkey : key' ≠ key) :
    (iface.remove key).routes address = some key' := by
  have hother : iface.routes address ≠ some key := fun heq => hkey (Option.some.inj (h.symm.trans heq))
  exact (if_neg hother).trans h

/-- A peer that is configured without the address leaves it to the peer that has it. -/
theorem routes_configure_of_ne (h : iface.routes address = some key') (hkey : key' ≠ key)
    (hnot : ∀ allowedIp ∈ peer.allowedIps, ¬AllowsAddress allowedIp address) :
    (iface.configure key peer).routes address = some key' := by
  have hnone : ¬∃ allowedIp ∈ peer.allowedIps, AllowsAddress allowedIp address := by
    rintro ⟨allowedIp, hmem, hallows⟩
    exact hnot allowedIp hmem hallows
  exact (if_neg hnone).trans (routes_remove_of_ne h hkey)

end Updates

end Interface

/-- The three stores of the WireGuard leases. -/
structure WgState where
  table : WgTable
  peers : Peers
  iface : Interface

/-- A fresh server with an empty table. -/
def WgState.fresh : WgState := ⟨.empty, fun _ => none, .empty⟩

/-- The server's own tunnel address. The last octet is a u8 and wraps. -/
def serverAddress (srv : WireGuardServer) : String :=
  ({ srv.subnetBase with d := srv.subnetBase.d + 1 } : Ipv4Addr).display

/-- The tunnel address of a peer. The sum is a u16, and its low byte becomes the last octet. -/
def peerIp (srv : WireGuardServer) (peerId : ℕ) : Ipv4Addr :=
  let last := (srv.subnetBase.d.toNat + peerId + 1) % 65536
  { srv.subnetBase with d := UInt8.ofNat last }

/-- The peer that `add_peer_to_interface` hands to the kernel. -/
def interfacePeer (api : WgApi) (publicKey presharedKey allowedIp : String) : Except AppError (Key × KernelPeer) := do
  let key ← decodeKey api "Invalid public key base64" "Key conversion error" publicKey
  let psk ← if presharedKey = "" then pure none
    else some <$> decodeKey api "Invalid PSK base64" "PSK key conversion error" presharedKey
  match api.addrMask allowedIp with
  | .error e => throw (.internal s!"Invalid allowed IP '{allowedIp}': {e}")
  | .ok () => pure (key, ⟨psk, [allowedIp], some 25⟩)

def addPeerToInterface (api : WgApi) (iface : Interface) (publicKey presharedKey allowedIp : String)
    (configurePeer : Except String Unit) : Except AppError Unit × Interface :=
  match interfacePeer api publicKey presharedKey allowedIp with
  | .error e => (.error e, iface)
  | .ok (key, peer) =>
    match configurePeer with
    | .error e => (.error (.internal s!"Failed to configure peer: {e}"), iface)
    | .ok () => (.ok (), iface.configure key peer)

/-- The map entry of a peer with the drawn keys. -/
def newPeerState (api : WgApi) (srv : WireGuardServer) (peerId : ℕ) (secret psk : Key) : PeerState :=
  let keypair := generateKeypair api secret
  ⟨peerId, keypair.privateKey, keypair.publicKey, generatePresharedKey psk, peerIp srv peerId⟩

/-- The client config of a map entry. -/
def clientConfig (srv : WireGuardServer) (peerId : ℕ) (state : PeerState) : PeerConfig :=
  ⟨peerId, state.privateKey, state.allowedIp.display, srv.serverPublicKey, state.presharedKey,
    s!"{srv.endpointHost}:{srv.listenPort}", srv.dns⟩

/-- The text under which a new peer's address is handed to the kernel. -/
def allowedIpText (srv : WireGuardServer) (peerId : ℕ) : String := (peerIp srv peerId).display ++ "/32"

/-- Allocate and add a new peer to the interface, with the keys that the random generator drew. -/
def addPeer (api : WgApi) (srv : WireGuardServer) (s : WgState) (peerId : ℕ) (secret psk : Key)
    (configurePeer : Except String Unit) : Except AppError PeerConfig × WgState :=
  let state := newPeerState api srv peerId secret psk
  match addPeerToInterface api s.iface state.publicKey state.presharedKey (allowedIpText srv peerId) configurePeer with
  | (.error e, iface) => (.error e, { s with iface })
  | (.ok (), iface) =>
    (.ok (clientConfig srv peerId state), { s with iface, peers := Function.update s.peers peerId (some state) })

/-- The kernel half of `remove_peer`, for the entry that was taken out of the map. -/
def removeFromInterface (api : WgApi) (iface : Interface) (peerId : ℕ) (state : PeerState)
    (removePeer : Except String Unit) : Except AppError Unit × Interface :=
  match decodeKey api "Invalid public key" "Key conversion failed" state.publicKey with
  | .error e => (.error e, iface)
  | .ok key =>
    match removePeer with
    | .error e => (.error (.internal s!"Failed to remove peer {peerId}: {e}"), iface)
    | .ok () => (.ok (), iface.remove key)

/-- Remove a peer: first its map entry, then its key on the interface. -/
def removePeer (api : WgApi) (s : WgState) (peerId : ℕ) (kernel : Except String Unit) :
    Except AppError Unit × WgState :=
  match s.peers peerId with
  | none => (.ok (), s)
  | some state =>
    let (result, iface) := removeFromInterface api s.iface peerId state kernel
    (result, { s with iface, peers := Function.update s.peers peerId none })

/-- The client configuration of an active peer. -/
def getClientConfig (srv : WireGuardServer) (peers : Peers) (peerId : ℕ) : Except AppError PeerConfig :=
  match peers peerId with
  | none => .error (.internal s!"Peer {peerId} not found in active peers")
  | some state => .ok (clientConfig srv peerId state)

/-- One row of `restore_peers`, with the number of peers restored so far. -/
def restorePeer (api : WgApi) (srv : WireGuardServer) (configurePeer : Int → Except String Unit) (row : WgRow) :
    ℕ × WgState → ℕ × WgState := fun (count, s) =>
  let peerId := Wrap.asU16 row.id
  match row.publicKey with
  | none => (count, s)
  | some publicKey =>
    let psk := row.presharedKey.getD ""
    let allowedIp := row.allowedIp.getD (peerIp srv peerId).display
    match addPeerToInterface api s.iface publicKey psk allowedIp (configurePeer row.id) with
    | (.error _, iface) => (count, { s with iface })
    | (.ok (), iface) =>
      let state : PeerState := ⟨peerId, row.privateKey.getD "", publicKey, psk,
        (Ipv4Addr.parse allowedIp).getD (peerIp srv peerId)⟩
      (count + 1, { s with iface, peers := Function.update s.peers peerId (some state) })

/-- The rows that `restore_peers` reads. -/
def restorableRows (t : WgTable) (nowMs : Int) : List WgRow :=
  t.rows.filter fun r => decide (nowMs < r.expiresAt) && r.privateKey.isSome && r.publicKey.isSome

/-- Restore the active peers from the database. -/
def restorePeers (api : WgApi) (srv : WireGuardServer) (s : WgState) (nowMs : Int)
    (configurePeer : Int → Except String Unit) : ℕ × WgState :=
  (restorableRows s.table nowMs).foldl (fun acc row => restorePeer api srv configurePeer row acc) (0, s)

/-! ### Tunnel addresses -/

theorem hostAt_serverAddress {srv : WireGuardServer} (h : srv.subnetBase.d.toNat + 1 ≤ 254) {ip : Ipv4Addr} :
    ip.display = serverAddress srv ↔ srv.subnetBase.HostAt 1 ip := by
  have hd : srv.subnetBase.d + 1 = UInt8.ofNat (srv.subnetBase.d.toNat + 1) := by
    rw [← UInt8.toNat_inj, UInt8.toNat_add, UInt8.toNat_ofNat']
    rfl
  have hself := Ipv4Addr.hostAt_ofNat h
  rw [← hd] at hself
  constructor
  · intro heq
    rw [Ipv4Addr.display_injective heq]
    exact hself
  · intro hip
    rw [hip.eq hself, serverAddress]

theorem hostAt_peerIp {srv : WireGuardServer} {peerId : ℕ} (h : srv.subnetBase.d.toNat + (peerId + 1) ≤ 254) :
    srv.subnetBase.HostAt (peerId + 1) (peerIp srv peerId) := by
  have hlast : (srv.subnetBase.d.toNat + peerId + 1) % 65536 = srv.subnetBase.d.toNat + (peerId + 1) := by omega
  rw [peerIp, hlast]
  exact Ipv4Addr.hostAt_ofNat h

/-- Ids that a /24 subnet can address have different addresses in one subnet. -/
theorem peerIp_injOn {srv srv' : WireGuardServer} (hbase : srv.subnetBase = srv'.subnetBase) {id id' : Int} (h₁ : 1 ≤ id)
    (h₂ : id ≤ 253) (h₁' : 1 ≤ id') (h₂' : id' ≤ 253)
    (h : peerIp srv (Wrap.asU16 id) = peerIp srv' (Wrap.asU16 id')) : id = id' := by
  have hlast := congrArg (fun address : Ipv4Addr => address.d.toNat) h
  simp only [peerIp, hbase, UInt8.toNat_ofNat', Wrap.asU16] at hlast
  have := srv'.subnetBase.d.toNat_lt
  omega

/-! ### Restart -/

theorem WireGuardServer.new_subnetBase {api : WgApi} {config : AppConfig} {keys keys' : List WgKeyPair} {secret : Key}
    {srv : WireGuardServer} (h : WireGuardServer.new api config keys secret = (.ok srv, keys')) :
    Ipv4Addr.parse config.wgSubnet = some srv.subnetBase := by
  simp only [WireGuardServer.new] at h
  split at h
  · cases h
  · next hparse =>
    cases h
    exact hparse

/-- A restart with the same configuration builds the same server. -/
theorem WireGuardServer.new_restart {api : WgApi} {config : AppConfig} {keys keys' : List WgKeyPair}
    {secret secret' : Key} {srv : WireGuardServer} (h : WireGuardServer.new api config keys secret = (.ok srv, keys')) :
    WireGuardServer.new api config keys' secret' = (.ok srv, keys') := by
  simp only [WireGuardServer.new, loadOrCreateServerKeys] at h ⊢
  split at h
  · cases h
  · cases hlast : keys.getLast? with
    | some row =>
      simp only [hlast] at h
      obtain ⟨rfl, rfl⟩ : _ = srv ∧ keys = keys' := by simpa using h
      simp only [hlast]
    | none =>
      simp only [hlast] at h
      obtain ⟨rfl, rfl⟩ : _ = srv ∧ _ = keys' := by simpa using h
      simp

/-! ### Removal -/

@[simp] theorem removePeer_table (api : WgApi) (s : WgState) (peerId : ℕ) (kernel : Except String Unit) :
    (removePeer api s peerId kernel).2.table = s.table := by
  unfold removePeer
  split <;> rfl

@[simp] theorem removePeer_peers (api : WgApi) (s : WgState) (peerId : ℕ) (kernel : Except String Unit) :
    (removePeer api s peerId kernel).2.peers = Function.update s.peers peerId none := by
  unfold removePeer
  split
  · next h => rw [← h, Function.update_eq_self]
  · rfl

theorem removePeer_iface {api : WgApi} {s : WgState} {peerId : ℕ} {st : PeerState} {key : Key}
    (hst : s.peers peerId = some st) (hkey : st.publicKey = encodeKey key) :
    (removePeer api s peerId (.ok ())).2.iface = s.iface.remove key := by
  simp only [removePeer, hst, removeFromInterface, hkey, decodeKey_encodeKey]

theorem removePeer_of_none {api : WgApi} {s : WgState} {peerId : ℕ} {kernel : Except String Unit}
    (h : s.peers peerId = none) : (removePeer api s peerId kernel).2 = s := by
  simp only [removePeer, h]

/-- The public key of the entry reads as this key. -/
def PeerState.HasKey (st : PeerState) (key : Key) : Prop := Base64.decode st.publicKey = some key.bytes

/-- The call that removes a peer takes this key off the interface. -/
def RemovesKey (peers : Peers) (peerId : ℕ) (kernel : Except String Unit) (key : Key) : Prop :=
  ∃ st, peers peerId = some st ∧ st.HasKey key ∧ kernel = .ok ()

theorem isSome_removePeer_iface {api : WgApi} {s : WgState} {peerId : ℕ} {kernel : Except String Unit} {key : Key} :
    ((removePeer api s peerId kernel).2.iface key).isSome ↔
      (s.iface key).isSome ∧ ¬RemovesKey s.peers peerId kernel key := by
  rw [removePeer]
  split
  · next hnone => simp [RemovesKey, hnone]
  · next st hst =>
    simp only [RemovesKey, hst, Option.some.injEq, exists_eq_left', removeFromInterface]
    split
    · next hdecode =>
      have hnot : ¬st.HasKey key := fun hkey => by cases hdecode.symm.trans (decodeKey_eq_ok_iff.mpr hkey)
      simp [hnot]
    · next key' hdecode =>
      have hkey : st.HasKey key ↔ key' = key := by
        rw [PeerState.HasKey, ← decodeKey_eq_ok_iff, hdecode, Except.ok.injEq]
      split
      · simp
      · dsimp only
        rw [hkey]
        by_cases heq : key = key'
        · simp [heq]
        · simp [Interface.remove_of_ne heq, Ne.symm heq]

/-! ### New peers -/

@[simp] theorem clientConfig_newPeerState (api : WgApi) (srv : WireGuardServer) (peerId : ℕ) (secret psk : Key) :
    clientConfig srv peerId (newPeerState api srv peerId secret psk) =
      ⟨peerId, encodeKey secret, (peerIp srv peerId).display, srv.serverPublicKey, encodeKey psk,
        s!"{srv.endpointHost}:{srv.listenPort}", srv.dns⟩ := rfl

/-- The keys of a new peer always convert, so only the address text can be refused before the kernel call. -/
theorem interfacePeer_keys {api : WgApi} {pub psk : Key} {allowedIp : String} (h : api.addrMask allowedIp = .ok ()) :
    interfacePeer api (encodeKey pub) (encodeKey psk) allowedIp = .ok (pub, ⟨some psk, [allowedIp], some 25⟩) := by
  simp only [interfacePeer, decodeKey_encodeKey, encodeKey_ne_empty, if_false, h]
  rfl

theorem addPeerToInterface_ok {api : WgApi} {iface : Interface} {pub psk : Key} {allowedIp : String}
    (h : api.addrMask allowedIp = .ok ()) :
    addPeerToInterface api iface (encodeKey pub) (encodeKey psk) allowedIp (.ok ()) =
      (.ok (), iface.configure pub ⟨some psk, [allowedIp], some 25⟩) := by
  simp only [addPeerToInterface, interfacePeer_keys h]

/-- A peer that could not be added has changed nothing. -/
theorem addPeer_error {api : WgApi} {srv : WireGuardServer} {s s' : WgState} {peerId : ℕ} {secret psk : Key}
    {kernel : Except String Unit} {e : AppError} (h : addPeer api srv s peerId secret psk kernel = (.error e, s')) :
    s' = s := by
  simp only [addPeer, addPeerToInterface] at h
  split at h
  · next heq =>
    split at heq
    · cases heq
      cases h
      rfl
    · split at heq
      · cases heq
        cases h
        rfl
      · cases heq
  · cases h

/-- A peer that was added has its drawn keys on the interface and in the map. -/
theorem addPeer_added {api : WgApi} {srv : WireGuardServer} {s s' : WgState} {peerId : ℕ} {secret psk : Key}
    {kernel : Except String Unit} {cfg : PeerConfig} (h : addPeer api srv s peerId secret psk kernel = (.ok cfg, s')) :
    s' = { s with
      iface := s.iface.configure (api.x25519 secret) ⟨some psk, [allowedIpText srv peerId], some 25⟩
      peers := Function.update s.peers peerId (some (newPeerState api srv peerId secret psk)) } := by
  cases haddr : api.addrMask (allowedIpText srv peerId) with
  | error e =>
    have hrefused : interfacePeer api (encodeKey (api.x25519 secret)) (encodeKey psk) (allowedIpText srv peerId) =
        .error (.internal s!"Invalid allowed IP '{allowedIpText srv peerId}': {e}") := by
      simp only [interfacePeer, decodeKey_encodeKey, encodeKey_ne_empty, if_false, haddr]
      rfl
    simp only [addPeer, addPeerToInterface, newPeerState, generateKeypair, generatePresharedKey, hrefused] at h
    cases h
  | ok =>
    cases kernel with
    | error e =>
      simp only [addPeer, addPeerToInterface, newPeerState, generateKeypair, generatePresharedKey,
        interfacePeer_keys haddr] at h
      cases h
    | ok =>
      simp only [addPeer, newPeerState, generateKeypair, generatePresharedKey, addPeerToInterface_ok haddr] at h
      exact (Prod.mk.inj h).2.symm

/-! ### Restored peers -/

/-- The row carries the keys and the address of a peer. -/
structure WgRow.Carries (r : WgRow) (st : PeerState) : Prop where
  privateKey : r.privateKey = some st.privateKey
  publicKey : r.publicKey = some st.publicKey
  presharedKey : r.presharedKey = some st.presharedKey
  allowedIp : r.allowedIp = some st.allowedIp.display

section Restore
variable {api : WgApi} {srv : WireGuardServer} {kernel : Int → Except String Unit} {row : WgRow} {acc : ℕ × WgState}

/-- A row whose peer the interface accepts is restored as that peer, with its key configured. -/
theorem restorePeer_carries (acc : ℕ × WgState) {secret psk : Key} (haddr : api.AcceptsAddresses)
    (hkernel : kernel row.id = .ok ())
    (h : row.Carries (newPeerState api srv (Wrap.asU16 row.id) secret psk)) :
    (restorePeer api srv kernel row acc).2.peers (Wrap.asU16 row.id) =
        some (newPeerState api srv (Wrap.asU16 row.id) secret psk) ∧
      ((restorePeer api srv kernel row acc).2.iface (api.x25519 secret)).isSome := by
  simp only [restorePeer, h.publicKey, h.presharedKey, h.allowedIp, h.privateKey, hkernel, newPeerState, generateKeypair,
    generatePresharedKey, Option.getD_some, addPeerToInterface_ok (haddr.host _), Ipv4Addr.parse_display,
    Function.update_self, Interface.configure_self, Option.isSome_some, and_self]

theorem restorePeer_peers {k : ℕ} (hk : k ≠ Wrap.asU16 row.id) :
    (restorePeer api srv kernel row acc).2.peers k = acc.2.peers k := by
  simp only [restorePeer]
  split
  · rfl
  · split
    · rfl
    · exact Function.update_of_ne hk ..

theorem addPeerToInterface_mono {iface : Interface} {pub psk allowedIp : String} {outcome : Except String Unit} {key : Key}
    (h : (iface key).isSome) : ((addPeerToInterface api iface pub psk allowedIp outcome).2 key).isSome := by
  simp only [addPeerToInterface]
  split
  · exact h
  · split
    · exact h
    · exact Interface.isSome_configure h

theorem restorePeer_iface {key : Key} (h : (acc.2.iface key).isSome) :
    ((restorePeer api srv kernel row acc).2.iface key).isSome := by
  simp only [restorePeer]
  split
  · exact h
  · split
    · next heq => exact (congrArg (fun x => (x.2 key).isSome) heq).symm.trans (addPeerToInterface_mono h)
    · next heq => exact (congrArg (fun x => (x.2 key).isSome) heq).symm.trans (addPeerToInterface_mono h)

theorem restore_rest {k : ℕ} {key : Key} {rows : List WgRow} (acc : ℕ × WgState)
    (hk : ∀ r ∈ rows, k ≠ Wrap.asU16 r.id) (hkey : (acc.2.iface key).isSome) :
    (rows.foldl (fun acc row => restorePeer api srv kernel row acc) acc).2.peers k = acc.2.peers k ∧
      ((rows.foldl (fun acc row => restorePeer api srv kernel row acc) acc).2.iface key).isSome := by
  induction rows generalizing acc with
  | nil => exact ⟨rfl, hkey⟩
  | cons r rest ih =>
    obtain ⟨hpeers, hiface⟩ := ih _ (fun r hr => hk r (List.mem_cons_of_mem _ hr)) (restorePeer_iface hkey)
    exact ⟨hpeers.trans (restorePeer_peers (hk r List.mem_cons_self)), hiface⟩

/-- An unexpired row that carries a peer is restored: the map has the peer, and its key is configured. -/
theorem restorePeers_carries {s : WgState} {nowMs : Int} {secret psk : Key} (haddr : api.AcceptsAddresses)
    (hkernel : ∀ id, kernel id = .ok ()) (hids : ∀ r ∈ s.table.rows, 0 ≤ r.id ∧ r.id ≤ 65535)
    (hrow : row ∈ s.table.rows) (hlive : nowMs < row.expiresAt)
    (h : row.Carries (newPeerState api srv (Wrap.asU16 row.id) secret psk)) :
    (restorePeers api srv s nowMs kernel).2.peers (Wrap.asU16 row.id) =
        some (newPeerState api srv (Wrap.asU16 row.id) secret psk) ∧
      ((restorePeers api srv s nowMs kernel).2.iface (api.x25519 secret)).isSome := by
  have hmem : row ∈ restorableRows s.table nowMs := by
    simp [restorableRows, hrow, hlive, h.privateKey, h.publicKey]
  have hsorted : (restorableRows s.table nowMs).Pairwise fun r r' => r.id < r'.id := s.table.sorted.filter _
  obtain ⟨before, after, hsplit⟩ := List.append_of_mem hmem
  rw [hsplit] at hsorted
  have hafter : ∀ r ∈ after, Wrap.asU16 row.id ≠ Wrap.asU16 r.id := by
    intro r hr heq
    have hlt := (List.pairwise_cons.mp (List.pairwise_append.mp hsorted).2.1).1 r hr
    have hr' : r ∈ s.table.rows :=
      (List.mem_filter.mp (hsplit ▸ List.mem_append_right _ (List.mem_cons_of_mem _ hr) : r ∈ restorableRows _ _)).1
    have h₁ := hids row hrow
    have h₂ := hids r hr'
    have := Wrap.asU16_injOn h₁.1 (by omega) h₂.1 (by omega) heq
    omega
  rw [restorePeers, hsplit, List.foldl_append, List.foldl_cons]
  obtain ⟨hself, hkey⟩ := restorePeer_carries (before.foldl (fun acc row => restorePeer api srv kernel row acc) (0, s))
    haddr (hkernel _) h
  obtain ⟨hpeers, hiface⟩ := restore_rest _ hafter hkey
  exact ⟨hpeers.trans hself, hiface⟩

end Restore

end TpnWorker
