import TpnWorker.Machine
import TpnWorker.Theorems.Renewals
import TpnWorker.Theorems.StoredKeys
import TpnWorker.Wireguard.Client

/-! Tunnels that stay open. What a client reads of the answer to its WireGuard lease request are the keys and the address of a
    peer that the interface has, with its address, for as long as the lease lasts, also after the worker was stopped and
    started again, with the same settings or with others in the same subnet; and every renewal is answered with the same
    tunnel. The worker does one operation at a time. -/

namespace TpnWorker
open Keyed Transition

/-! ### What a start restores -/

section Restore
variable {api : WgApi} {srv : WireGuardServer} {kernel : Int → Except String Unit} {row : WgRow} {acc : ℕ × WgState}
  {rows : List WgRow} {key : Key} {k : ℕ} {st : PeerState} {address : Ipv4Addr}

/-- The text of a public key reads as this key. -/
def Reads (key : Key) (pub : Option String) : Prop := ∃ text, pub = some text ∧ Base64.decode text = some key.bytes

theorem interfacePeer_inv {pub psk ip : String} {peer : KernelPeer} (h : interfacePeer api pub psk ip = .ok (key, peer)) :
    Base64.decode pub = some key.bytes ∧ peer.allowedIps = [ip] := by
  cases hkey : decodeKey api "Invalid public key base64" "Key conversion error" pub with
  | error e =>
    simp only [interfacePeer, hkey] at h
    cases h
  | ok key' =>
    have hkeys : key' = key ∧ peer.allowedIps = [ip] := by
      simp only [interfacePeer, hkey] at h
      split at h
      · split at h
        · cases h
        · cases h
          exact ⟨rfl, rfl⟩
      · cases hpsk : decodeKey api "Invalid PSK base64" "PSK key conversion error" psk with
        | error e =>
          rw [hpsk] at h
          cases h
        | ok psk' =>
          rw [hpsk] at h
          split at h
          · cases h
          · cases h
            exact ⟨rfl, rfl⟩
    exact ⟨hkeys.1 ▸ decodeKey_eq_ok_iff.mp hkey, hkeys.2⟩

/-- The peer of another key is configured, or none. -/
theorem addPeerToInterface_of_ne (api : WgApi) (iface : Interface) (psk ip : String) (outcome : Except String Unit) {pub : String}
    (h : Base64.decode pub ≠ some key.bytes) :
    (addPeerToInterface api iface pub psk ip outcome).2 = iface ∨ ∃ key' peer, key ≠ key' ∧ peer.allowedIps = [ip] ∧
      (addPeerToInterface api iface pub psk ip outcome).2 = iface.configure key' peer := by
  simp only [addPeerToInterface]
  split
  · exact Or.inl rfl
  · next key' peer hpeer =>
    obtain ⟨hkey, hips⟩ := interfacePeer_inv hpeer
    split
    · exact Or.inl rfl
    · refine Or.inr ⟨key', peer, ?_, hips, rfl⟩
      rintro rfl
      exact h hkey

/-- The allowed IP under which a row is restored. -/
def restoredIp (srv : WireGuardServer) (row : WgRow) : String := row.allowedIp.getD (peerIp srv (Wrap.asU16 row.id)).display

/-- A row with another key leaves the peer of this key alone, and its address if the row has another one. -/
theorem restorePeer_of_ne (address : Ipv4Addr) (h : ¬Reads key row.publicKey) :
    (restorePeer api srv kernel row acc).2.iface key = acc.2.iface key ∧
      (acc.2.iface.routes address = some key → ¬AllowsAddress (restoredIp srv row) address →
        (restorePeer api srv kernel row acc).2.iface.routes address = some key) := by
  simp only [restorePeer]
  split
  · exact ⟨rfl, fun hroute _ => hroute⟩
  · next pub hpub =>
    have hne : Base64.decode pub ≠ some key.bytes := fun hkey => h ⟨pub, hpub, hkey⟩
    have hadd := addPeerToInterface_of_ne api acc.2.iface (row.presharedKey.getD "") (restoredIp srv row) (kernel row.id) hne
    have hkept : ∀ {iface : Interface}, (addPeerToInterface api acc.2.iface pub (row.presharedKey.getD "") (restoredIp srv row)
          (kernel row.id)).2 = iface →
        iface key = acc.2.iface key ∧ (acc.2.iface.routes address = some key → ¬AllowsAddress (restoredIp srv row) address →
          iface.routes address = some key) := by
      rintro iface rfl
      rcases hadd with hadd | ⟨key', peer, hkey, hips, hadd⟩ <;> rw [hadd]
      · exact ⟨rfl, fun hroute _ => hroute⟩
      · refine ⟨Interface.configure_of_ne hkey, fun hroute hother => ?_⟩
        refine Interface.routes_configure_of_ne hroute hkey fun ip hip => ?_
        rw [hips, List.mem_singleton] at hip
        exact hip ▸ hother
    split
    · next hresult => exact hkept (congrArg Prod.snd hresult)
    · next hresult => exact hkept (congrArg Prod.snd hresult)

theorem restore_others (hk : ∀ r ∈ rows, k ≠ Wrap.asU16 r.id) (hkey : ∀ r ∈ rows, ¬Reads key r.publicKey)
    (haddress : ∀ r ∈ rows, ¬AllowsAddress (restoredIp srv r) address) :
    (rows.foldl (fun acc row => restorePeer api srv kernel row acc) acc).2.peers k = acc.2.peers k ∧
      (rows.foldl (fun acc row => restorePeer api srv kernel row acc) acc).2.iface key = acc.2.iface key ∧
      (acc.2.iface.routes address = some key →
        (rows.foldl (fun acc row => restorePeer api srv kernel row acc) acc).2.iface.routes address = some key) := by
  induction rows generalizing acc with
  | nil => exact ⟨rfl, rfl, id⟩
  | cons r rest ih =>
    obtain ⟨hpeers, hiface, hroutes⟩ := ih (fun r hr => hk r (List.mem_cons_of_mem _ hr))
      (fun r hr => hkey r (List.mem_cons_of_mem _ hr)) fun r hr => haddress r (List.mem_cons_of_mem _ hr)
    obtain ⟨hself, hroute⟩ := restorePeer_of_ne address (hkey r List.mem_cons_self)
    exact ⟨hpeers.trans (restorePeer_peers (hk r List.mem_cons_self)), hiface.trans hself,
      fun h => hroutes (hroute h (haddress r List.mem_cons_self))⟩

/-- A restored entry has the public key of its row. -/
theorem restore_owner (h : (rows.foldl (fun acc row => restorePeer api srv kernel row acc) acc).2.peers k = some st) :
    acc.2.peers k = some st ∨ ∃ r ∈ rows, k = Wrap.asU16 r.id ∧ r.publicKey = some st.publicKey := by
  induction rows generalizing acc with
  | nil => exact Or.inl h
  | cons row rest ih =>
    rcases ih h with h | ⟨r, hr, hrest⟩
    · simp only [restorePeer] at h
      split at h
      · exact Or.inl h
      · next pub hpub =>
        split at h
        · exact Or.inl h
        · dsimp only at h
          rcases Function.update_some_cases h with ⟨hk, hst⟩ | ⟨-, hst⟩
          · exact Or.inr ⟨row, List.mem_cons_self, hk, by rw [hpub, hst]⟩
          · exact Or.inl hst
    · exact Or.inr ⟨r, List.mem_cons_of_mem _ hr, hrest⟩

end Restore

/-! ### The lease of a tunnel -/

def Tunnel.state (c : Tunnel) (api : WgApi) (id : Int) : PeerState :=
  ⟨Wrap.asU16 id, encodeKey c.privateKey, encodeKey (api.x25519 c.privateKey), encodeKey c.presharedKey, c.address⟩

/-- The peer of the tunnel on the interface, with this text for its address. -/
def Tunnel.kernelPeer (c : Tunnel) (text : String) : KernelPeer := ⟨some c.presharedKey, [text], some 25⟩

def Tunnel.peer (c : Tunnel) (api : WgApi) (id : Int) (row : WgRow) (text : String) : HeldPeer :=
  ⟨id, row, c.state api id, api.x25519 c.privateKey, c.kernelPeer text⟩

/-- A row with a key has the address that a server of this subnet gives its id. -/
def Sited (subnet : String) (id : Int) (publicKey allowedIp : Option String) : Prop :=
  publicKey ≠ none → ∃ srv : WireGuardServer, Ipv4Addr.parse subnet = some srv.subnetBase ∧
    allowedIp = some (peerIp srv (Wrap.asU16 id)).display

/-- Every row has an id that is allocated, and an address of this subnet. -/
structure WgTable.InSubnet (subnet : String) (t : WgTable) : Prop where
  fits : t.KeysMeet fun id _ _ => 1 ≤ id ∧ id ≤ 253
  sited : t.KeysMeet (Sited subnet)

/-- The table has the row of the tunnel, and no other row has its key. -/
structure Tunnel.Stored (c : Tunnel) (api : WgApi) (id : Int) (row : WgRow) (t : WgTable) : Prop where
  found : t.get? id = some row
  carries : row.Carries (c.state api id)
  sole : t.KeysMeet fun id' pub _ => Reads (api.x25519 c.privateKey) pub → id' = id

section Stored
variable {c : Tunnel} {api : WgApi} {srv : WireGuardServer} {id id' : Int} {row r : WgRow} {t : WgTable} {text subnet : String}
  {s : WgState} {kernel : Int → Except String Unit} {nowMs : Int}

theorem WgTable.InSubnet.fits16 (S : t.InSubnet subnet) (h : t.get? id = some r) : 0 ≤ id ∧ id < 65536 := by
  obtain ⟨hlow, hhigh⟩ := S.fits _ _ h
  exact ⟨by omega, by omega⟩

/-- The address of the tunnel is the one that a server of its subnet gives its id. -/
theorem Tunnel.Stored.address_eq (H : c.Stored api id row t) (S : t.InSubnet subnet)
    (hsrv : Ipv4Addr.parse subnet = some srv.subnetBase) : c.address = peerIp srv (Wrap.asU16 id) := by
  obtain ⟨srv', hsrv', hip⟩ := S.sited _ _ H.found (by simp [H.carries.publicKey])
  have hbase : srv'.subnetBase = srv.subnetBase := Option.some.inj (hsrv'.symm.trans hsrv)
  have haddress := Ipv4Addr.display_injective (Option.some.inj (H.carries.allowedIp.symm.trans hip))
  rw [peerIp, hbase] at haddress
  exact haddress

/-- A server of the subnet gives the address of the tunnel to no other id. -/
theorem Tunnel.Stored.apart (H : c.Stored api id row t) (S : t.InSubnet subnet)
    (hsrv : Ipv4Addr.parse subnet = some srv.subnetBase) (row' : WgRow) (text : String) :
    (c.peer api id row' text).Apart srv := by
  intro id' hlow hhigh hne heq
  obtain ⟨hlow', hhigh'⟩ := S.fits _ _ H.found
  exact hne (peerIp_injOn rfl hlow hhigh hlow' hhigh' (heq.trans (H.address_eq S hsrv)))

/-- A row with a key under another id is restored under another address. -/
theorem Tunnel.Stored.restoredIp_ne (H : c.Stored api id row t) (S : t.InSubnet subnet) (srv : WireGuardServer)
    (hr : t.get? id' = some r) (hkey : r.publicKey ≠ none) (hne : id' ≠ id) : ¬AllowsAddress (restoredIp srv r) c.address := by
  obtain ⟨srv', hsrv', hip⟩ := S.sited _ _ hr hkey
  obtain ⟨hlow, hhigh⟩ := S.fits _ _ hr
  rw [restoredIp, hip, Option.getD_some]
  exact fun h => H.apart S hsrv' row "" _ hlow hhigh hne h.of_display

theorem Tunnel.restorePeer_row (srv : WireGuardServer) (acc : ℕ × WgState) (haddr : api.AcceptsAddresses)
    (hkernel : kernel row.id = .ok ()) (hid : row.id = id) (h : row.Carries (c.state api id)) :
    restorePeer api srv kernel row acc = (acc.1 + 1,
      { acc.2 with
        iface := acc.2.iface.configure (api.x25519 c.privateKey) (c.kernelPeer c.address.display)
        peers := Function.update acc.2.peers (Wrap.asU16 id) (some (c.state api id)) }) := by
  subst hid
  simp only [restorePeer, h.publicKey, h.presharedKey, h.allowedIp, h.privateKey, hkernel, Tunnel.state, Option.getD_some,
    addPeerToInterface_ok (haddr.host _), Ipv4Addr.parse_display]
  rfl

/-- A start before the expiry brings the peer of the tunnel back. -/
theorem Tunnel.Stored.restore (H : c.Stored api id row t) (S : t.InSubnet subnet) (haddr : api.AcceptsAddresses)
    (hkernel : ∀ id, kernel id = .ok ()) (srv : WireGuardServer) (iface : Interface) (hlive : nowMs < row.expiresAt) :
    (c.peer api id row c.address.display).Stands (restorePeers api srv ⟨t, fun _ => none, iface⟩ nowMs kernel).2 := by
  let key := api.x25519 c.privateKey
  have hid : row.id = id := Table.get?_key H.found
  have hrows : ∀ {r}, r ∈ restorableRows t nowMs → t.get? r.id = some r := fun hr =>
    Table.get?_eq_some_iff.mpr ⟨(List.mem_filter.mp hr).1, rfl⟩
  have hmem : row ∈ restorableRows t nowMs := by
    have hrow : row ∈ t.rows := (Table.get?_eq_some_iff.mp H.found).1
    simp [restorableRows, hrow, hlive, H.carries.privateKey, H.carries.publicKey]
  have hsorted : (restorableRows t nowMs).Pairwise fun r r' => r.id < r'.id := t.sorted.filter _
  have htable : (restorePeers api srv ⟨t, fun _ => none, iface⟩ nowMs kernel).2.table = t := foldl_restorePeer_table _ _
  obtain ⟨before, after, hsplit⟩ := List.append_of_mem hmem
  -- the rows that follow have other ids, other keys and other addresses
  have hne : ∀ r ∈ after, r.id ≠ id := by
    intro r hr heq
    rw [hsplit] at hsorted
    have hlt := (List.pairwise_cons.mp (List.pairwise_append.mp hsorted).2.1).1 r hr
    omega
  have hafter : ∀ r ∈ after, r ∈ restorableRows t nowMs := fun r hr =>
    hsplit ▸ List.mem_append_right _ (List.mem_cons_of_mem _ hr)
  have hothers : ∀ r ∈ after, Wrap.asU16 id ≠ Wrap.asU16 r.id := by
    intro r hr heq
    have h₁ := S.fits16 H.found
    have h₂ := S.fits16 (hrows (hafter r hr))
    exact hne r hr (Wrap.asU16_injOn h₂.1 h₂.2 h₁.1 h₁.2 heq.symm)
  have hkeys : ∀ r ∈ after, ¬Reads key r.publicKey := fun r hr hread => hne r hr (H.sole _ _ (hrows (hafter r hr)) hread)
  have haddresses : ∀ r ∈ after, ¬AllowsAddress (restoredIp srv r) c.address := by
    intro r hr
    have hkey : r.publicKey.isSome = true := by
      have hrestorable := (List.mem_filter.mp (hafter r hr)).2
      simp only [Bool.and_eq_true] at hrestorable
      exact hrestorable.2
    exact H.restoredIp_ne S srv (hrows (hafter r hr)) (Option.isSome_iff_ne_none.mp hkey) (hne r hr)
  have hrestore : restorePeers api srv ⟨t, fun _ => none, iface⟩ nowMs kernel =
      after.foldl (fun acc row => restorePeer api srv kernel row acc) (restorePeer api srv kernel row
        (before.foldl (fun acc row => restorePeer api srv kernel row acc) (0, ⟨t, fun _ => none, iface⟩))) := by
    rw [restorePeers, hsplit, List.foldl_append, List.foldl_cons]
  have hself := fun acc => Tunnel.restorePeer_row srv acc haddr (hkernel _) hid H.carries
  refine ⟨by rw [htable]; exact H.found, ?_, ?_, ?_, fun {k st} hst hkey => ?_, fun {id' r} hr => S.fits16 (htable ▸ hr)⟩
  · rw [hrestore]
    refine (restore_others hothers hkeys haddresses).1.trans ?_
    rw [hself]
    exact Function.update_self ..
  · rw [hrestore]
    refine (restore_others hothers hkeys haddresses).2.1.trans ?_
    rw [hself]
    exact Interface.configure_self ..
  · rw [hrestore]
    refine (restore_others hothers hkeys haddresses).2.2 ?_
    rw [hself]
    exact Interface.routes_configure_self (List.mem_singleton_self _) (Or.inl rfl)
  · rcases restore_owner hst with hst | ⟨r, hr, hk, hpub⟩
    · cases hst
    · rw [hk, H.sole r.id r (hrows hr) ⟨_, hpub, hkey⟩]
      rfl

end Stored

/-! ### Server keys -/

section Keys
variable {api : WgApi} {config : AppConfig} {keys keys' : List WgKeyPair} {secret : Key} {srv : WireGuardServer}

def AllDrawn (api : WgApi) (keys : List WgKeyPair) : Prop := ∀ pair ∈ keys, ∃ secret, pair = generateKeypair api secret

/-- The server that a start with these settings creates. -/
def AppConfig.server (config : AppConfig) (serverKey : Key) (subnetBase : Ipv4Addr) : WireGuardServer :=
  ⟨encodeKey serverKey, config.wireguardServerPort, subnetBase, config.serverPublicHost, config.wgDns⟩

/-- The key pair of a start is the newest of the database, and was drawn. -/
theorem loadOrCreateServerKeys_drawn (h : AllDrawn api keys) (secret : Key) :
    ∃ drawn, (loadOrCreateServerKeys api keys secret).1 = generateKeypair api drawn ∧
      (loadOrCreateServerKeys api keys secret).2.getLast? = some (generateKeypair api drawn) ∧
      AllDrawn api (loadOrCreateServerKeys api keys secret).2 := by
  unfold loadOrCreateServerKeys
  split
  · next row hlast =>
    obtain ⟨drawn, rfl⟩ := h row (List.mem_of_getLast? hlast)
    exact ⟨drawn, rfl, hlast, h⟩
  · refine ⟨secret, rfl, List.getLast?_concat, fun pair hpair => ?_⟩
    rcases List.mem_append.mp hpair with hpair | hpair
    · exact h pair hpair
    · exact ⟨secret, List.mem_singleton.mp hpair⟩

theorem WireGuardServer.new_inv (h : WireGuardServer.new api config keys secret = (.ok srv, keys')) :
    keys' = (loadOrCreateServerKeys api keys secret).2 ∧ ∀ serverKey, (loadOrCreateServerKeys api keys secret).1.publicKey =
      encodeKey serverKey → ∃ subnetBase, Ipv4Addr.parse config.wgSubnet = some subnetBase ∧
        srv = config.server serverKey subnetBase := by
  simp only [WireGuardServer.new] at h
  split at h
  · cases h
  · next subnetBase hparse =>
    cases h
    exact ⟨rfl, fun serverKey hkey => ⟨subnetBase, hparse, by rw [AppConfig.server, ← hkey]⟩⟩

theorem generateKeypair_injective {secret secret' : Key} (h : generateKeypair api secret = generateKeypair api secret') :
    secret = secret' := encodeKey_injective (congrArg WgKeyPair.privateKey h)

end Keys

/-! ### Machines -/

/-- A process of the machine uses these crates, and the subnet of its database. -/
def MachineAct.Uses (api : WgApi) (subnet : String) : MachineAct → Prop
  | .start I .. => I.api = api ∧ I.config.wgSubnet = subnet
  | _ => True

/-- The server of a process has the key pair of the database, and so has the interface; its addresses are of the subnet. -/
structure Machine.Founded (api : WgApi) (subnet : String) (m : Machine) : Prop where
  drawn : AllDrawn api m.keys
  inSubnet : m.table.InSubnet subnet
  uses : ∀ I, m.running = some I → I.api = api
  server : ∀ I srv, m.running = some I → I.wgServer = some srv → ∃ secret subnetBase,
    m.keys.getLast? = some (generateKeypair api secret) ∧ m.interfaceKey = some (encodeKey secret) ∧
    Ipv4Addr.parse subnet = some subnetBase ∧ srv = I.config.server (api.x25519 secret) subnetBase

section Founded
variable {api : WgApi} {m n : Machine} {I : Installation} {wg : WgStart} {dir : Option (List PasswordFile)}
  {proxies : StartupEnv} {subnet : String}

/-- Rows are added with ids that are allocated and addresses of the server. -/
theorem WgTable.InSubnet.background {R : Registrar} {a : BackgroundAct} {b b' : Background} (S : b.table.InSubnet subnet)
    (hserver : ∀ srv, R.wgServer = some srv → Ipv4Addr.parse subnet = some srv.subnetBase) (h : b.step R a = some b') :
    b'.table.InSubnet subnet where
  fits := S.fits.background (fun _ hlow hhigh => ⟨hlow, hhigh⟩) (fun _ _ _ _ _ hlow hhigh => ⟨hlow, hhigh⟩) h
  sited := S.sited.background (fun _ _ _ hnone => absurd rfl hnone)
    (fun _ _ srv hsrv _ _ _ _ => ⟨srv, hserver srv hsrv, rfl⟩) h

theorem WgTable.inSubnet_empty : WgTable.InSubnet subnet .empty := ⟨fun _ _ h => (by cases h), fun _ _ h => by cases h⟩

/-- The server of a process is in the subnet. -/
theorem Machine.Founded.serverSubnet (H : m.Founded api subnet) (hI : m.running = some I) {srv : WireGuardServer}
    (hsrv : I.wgServer = some srv) : Ipv4Addr.parse subnet = some srv.subnetBase := by
  obtain ⟨_, _, -, -, hparse, rfl⟩ := H.server I srv hI hsrv
  exact hparse

@[simp] theorem Background.restart_toWgState (I : Installation) (s : Background) (wg : WgState)
    (dir : Option (List PasswordFile)) (env : StartupEnv) : (s.restart I wg dir env).toWgState = wg := by
  simp only [Background.restart]
  split <;> rfl

theorem Background.initDatabase_table (config : ServerConfig) (s : Background) :
    (s.initDatabase config).table = s.table ∨ (s.initDatabase config).table = .empty := by
  unfold Background.initDatabase
  split
  · exact Or.inr rfl
  · exact Or.inl rfl

theorem Installation.Keeps.initKeys (hkeeps : I.Keeps) (keys : List WgKeyPair) : Machine.initKeys I.config keys = keys := by
  simp only [Machine.initKeys, hkeeps.ciMode, hkeeps.forceDestroyDatabase, Bool.or_false, Bool.false_eq_true, if_false]

theorem Machine.Founded.start (H : m.Founded api subnet) (huses : I.api = api) (hsubnet : I.config.wgSubnet = subnet)
    (wg : WgStart) (dir : Option (List PasswordFile)) (proxies : StartupEnv) :
    (m.start I wg dir proxies).Founded api subnet := by
  have hkeys : AllDrawn api (Machine.initKeys I.config m.keys) := by
    unfold Machine.initKeys
    split
    · exact fun _ h => absurd h List.not_mem_nil
    · exact H.drawn
  have hinSubnet : (m.toBackground.initDatabase I.config).table.InSubnet subnet := by
    rcases m.toBackground.initDatabase_table I.config with htable | htable <;> rw [htable]
    · exact H.inSubnet
    · exact WgTable.inSubnet_empty
  obtain ⟨drawn, hpair, hlast, hdrawn⟩ := loadOrCreateServerKeys_drawn hkeys wg.secret
  have hall : AllDrawn api (m.start I wg dir proxies).keys := by
    rcases m.start_keys I wg dir proxies with heq | heq <;> rw [heq]
    · exact hkeys
    · exact huses ▸ hdrawn
  rcases m.start_cases I wg dir proxies with ⟨-, -, srv, keys', hnew, heq⟩ | ⟨keys', heq⟩ | ⟨-, heq⟩ <;> rw [heq] at hall ⊢
  · rw [huses] at hnew
    obtain ⟨rfl, hserver⟩ := WireGuardServer.new_inv hnew
    obtain ⟨subnetBase, hparse, rfl⟩ := hserver (api.x25519 drawn) (by rw [hpair]; rfl)
    refine ⟨hall, by simpa using hinSubnet, fun _ h => ?_, fun _ _ h hsrv => ?_⟩
    · cases h
      exact huses
    · cases h
      cases hsrv
      exact ⟨drawn, subnetBase, hlast, by rw [huses, hpair]; rfl, hsubnet ▸ hparse, rfl⟩
  · exact ⟨hall, hinSubnet, fun _ h => (by cases h), fun _ _ h => by cases h⟩
  · refine ⟨hall, by simpa using hinSubnet, fun _ h => ?_, fun _ _ h hsrv => ?_⟩
    · cases h
      exact huses
    · cases h
      cases hsrv

theorem Machine.Founded.step {a : MachineAct} (H : m.Founded api subnet) (huses : a.Uses api subnet) (h : m.step a = some n) :
    n.Founded api subnet := by
  cases a with
  | background a =>
    obtain ⟨I, s, hI, hs, rfl⟩ := Machine.background_inv h
    exact ⟨H.drawn, H.inSubnet.background (fun _ hsrv => H.serverSubnet hI hsrv) hs, H.uses, H.server⟩
  | start I wg dir proxies =>
    cases h
    exact H.start huses.1 huses.2 wg dir proxies
  | stop iface =>
    cases h
    exact ⟨H.drawn, H.inSubnet, fun _ h => (by cases h), fun _ _ h => by cases h⟩

end Founded

/-! ### A client at a machine -/

/-- The machine has the lease of the tunnel in its database, and the peer of the tunnel as long as a process runs. -/
structure Machine.Holds (api : WgApi) (subnet : String) (c : Tunnel) (id expiresAt : Int) (m : Machine) : Prop
    extends m.Founded api subnet where
  key : ∃ secret, m.keys.getLast? = some (generateKeypair api secret) ∧ api.x25519 secret = c.serverKey
  lease : ∃ row, c.Stored api id row m.table ∧ row.expiresAt = expiresAt ∧ ∀ I, m.running = some I →
    ∃ srv text, I.wgServer = some srv ∧ AllowsAddress text c.address ∧ (c.peer api id row text).Stands m.toWgState

def Installation.endpoint (I : Installation) : String := s!"{I.config.serverPublicHost}:{I.config.wireguardServerPort}"

/-- The tunnel as an answer under these settings describes it. -/
def Tunnel.under (c : Tunnel) (I : Installation) : Tunnel := { c with dns := I.config.wgDns, endpoint := I.endpoint }

/-- A machine, and the last answer to a client that has a lease. -/
structure Stay where
  machine : Machine
  result : LeaseResult

inductive StayAct where
  | machine (a : MachineAct)
  | renew (seconds : Int) (env : LeaseEnv)

namespace Stay

/-- One step of the machine, or one renewal that is granted. -/
def step (format : String) (s : Stay) : StayAct → Option Stay
  | .machine a => (s.machine.step a).map fun machine => { s with machine }
  | .renew seconds env =>
    match s.machine.running with
    | none => none
    | some I =>
      match getWorkerConfig I.worker s.machine.toStores (renewal "wireguard" format seconds s.result) env with
      | (.ok result, stores) => some ⟨{ s.machine with toStores := stores }, result⟩
      | (.error _, _) => none

/-- The lease has not expired at any clock reading of the step, no one else extends it, and its key is drawn by no other call. A
    start keeps the database and its subnet and has a server, of which the peers are restored; or it fails. -/
def InTime (api : WgApi) (subnet : String) (key : Key) (s : Stay) : StayAct → Prop
  | .machine (.background a) =>
    Tenancy.InTime "wireguard" SamePeer ⟨s.machine.toBackground, s.result⟩ (.background a) ∧
      ∀ env ∈ a.leases, api.x25519 env.allocate.secret ≠ key
  | .machine (.start I wg _ _) => I.api = api ∧ I.config.wgSubnet = subnet ∧ I.Keeps ∧ I.config.ciMockWgContainer = false ∧
      wg.nowMs < s.result.leaseExpiresAt ∧ wg.rows = .ok () ∧ ∀ id, wg.configurePeer id = .ok ()
  | .machine (.stop _) => True
  | .renew _ env => env.update = .ok () ∧ env.updateMs < s.result.leaseExpiresAt

end Stay

section Stays
variable {api : WgApi} {c : Tunnel} {id expiresAt : Int} {m n : Machine} {I : Installation} {srv : WireGuardServer}
  {s t : Stay} {format subnet : String}

theorem reads_encodeKey {key key' : Key} (h : Reads key (some (encodeKey key'))) : key' = key := by
  obtain ⟨text, htext, hread⟩ := h
  cases htext
  rw [encodeKey, Base64.decode_encode, Option.some_inj] at hread
  cases key
  cases key'
  cases hread
  rfl

/-- What keeps all rows under other keys keeps the lease the only one under its own. -/
theorem meets_sole {api : WgApi} {key secret : Key} (srv : WireGuardServer) (hnew : api.x25519 secret ≠ key) :
    MeetsDrawn (fun id' pub _ => Reads key pub → id' = id) api srv secret :=
  fun _ _ _ hread => absurd (reads_encodeKey hread) hnew

theorem undrawn_sole {key : Key} : MeetsUndrawn fun id' pub _ => Reads key pub → id' = id := by
  rintro _ - - ⟨_, hnone, -⟩
  cases hnone

theorem Machine.Holds.background {a : BackgroundAct} {result : LeaseResult} (H : m.Holds api subnet c id result.leaseExpiresAt)
    (href : result.leaseRef = Decimal.display id)
    (htime : Tenancy.InTime "wireguard" SamePeer ⟨m.toBackground, result⟩ (.background a))
    (hdraws : ∀ env ∈ a.leases, api.x25519 env.allocate.secret ≠ api.x25519 c.privateKey)
    (h : m.step (.background a) = some n) : n.Holds api subnet c id result.leaseExpiresAt := by
  have hfounded := H.toFounded.step (a := .background a) trivial h
  obtain ⟨I, s, hI, hs, rfl⟩ := Machine.background_inv h
  obtain ⟨row, hstored, hexp, hlive⟩ := H.lease
  obtain ⟨srv, text, hsrv, hnames, hstands⟩ := hlive I hI
  have huses := H.uses I hI
  have hdraws : ∀ env ∈ a.leases, I.api.x25519 env.allocate.secret ≠ api.x25519 c.privateKey := by
    rw [huses]
    exact hdraws
  have hsole := hstored.sole.background undrawn_sole (fun env henv srv _ => meets_sole srv (hdraws env henv)) hs
  have hapart : ∀ srv, I.wgServer = some srv → (c.peer api id row text).Apart srv := fun _ hsrv =>
    hstored.apart H.inSubnet (H.serverSubnet hI hsrv) row text
  have hstands' : (c.peer api id row text).Stands s.toWgState := by
    let tenancy : Tenancy := ⟨m.toBackground, HeldPeer.answer (c.peer api id row text) srv ""⟩
    have hanswer : tenancy.result = HeldPeer.answer (c.peer api id row text) srv "" := rfl
    refine HeldPeer.Stands.background (s := tenancy) hstands hanswer ?_ hdraws hapart hs
    obtain ⟨hreadings, hothers⟩ := htime
    refine ⟨fun now hnow => ?_, fun req env ref hreq htype hextend => ?_⟩
    · show now < row.expiresAt
      rw [hexp]
      exact hreadings now hnow
    · show ¬SamePeer ref (Decimal.display id)
      rw [← href]
      exact hothers req env ref hreq htype hextend
  refine ⟨hfounded, H.key, row, ⟨hstands'.row, hstored.carries, hsole⟩, hexp, fun I' hI' => ?_⟩
  cases hI.symm.trans hI'
  exact ⟨srv, text, hsrv, hnames, hstands'⟩

theorem Machine.Holds.start {wg : WgStart} {dir : Option (List PasswordFile)} {proxies : StartupEnv}
    (H : m.Holds api subnet c id expiresAt) (haddr : api.AcceptsAddresses) (huses : I.api = api)
    (hsubnet : I.config.wgSubnet = subnet) (hkeeps : I.Keeps) (hmock : I.config.ciMockWgContainer = false)
    (hlive : wg.nowMs < expiresAt) (hrows : wg.rows = .ok ()) (hkernel : ∀ id, wg.configurePeer id = .ok ()) :
    (m.start I wg dir proxies).Holds api subnet c id expiresAt := by
  have hfounded := H.toFounded.start huses hsubnet wg dir proxies
  obtain ⟨row, hstored, rfl, -⟩ := H.lease
  obtain ⟨secret, hlast, hkey⟩ := H.key
  have hload : (loadOrCreateServerKeys I.api m.keys wg.secret).2 = m.keys := by
    unfold loadOrCreateServerKeys
    rw [hlast]
  have hkept : (m.start I wg dir proxies).keys = m.keys := by
    have hkeys := m.start_keys I wg dir proxies
    simp only [hkeeps.initKeys, hload, or_self] at hkeys
    exact hkeys
  have hinit := hkeeps.initDatabase m.toBackground
  refine ⟨hfounded, ⟨secret, by rw [hkept, hlast], hkey⟩, row, ?_⟩
  rcases m.start_cases I wg dir proxies with ⟨-, -, srv, keys', hnew, heq⟩ | ⟨keys', heq⟩ | ⟨hnone, heq⟩ <;> rw [heq]
  · have hstores : (wg.env I.config.toAppConfig).stores I.api srv (m.toBackground.initDatabase I.config).table =
        (restorePeers api srv ⟨m.table, fun _ => none, wg.iface⟩ wg.nowMs wg.configurePeer).2 := by
      rw [hinit, huses]
      simp only [StartEnv.stores, WgStart.env, hrows]
    have hstands := hstored.restore H.inSubnet haddr hkernel srv wg.iface hlive
    refine ⟨?_, rfl, fun I' hI' => ?_⟩
    · simpa [hinit] using hstored
    · cases hI'
      refine ⟨srv, _, rfl, Or.inl rfl, ?_⟩
      simpa [hstores] using hstands
  · exact ⟨by simpa [hinit] using hstored, rfl, fun _ h => by cases h⟩
  · rcases hnone with hworker | hmock'
    · cases hworker.symm.trans hkeeps.isWorker
    · cases hmock'.symm.trans hmock

/-- The server of the process, and the interface, have the server key of the tunnel. -/
theorem Machine.Holds.server_key (H : m.Holds api subnet c id expiresAt) (hI : m.running = some I) (hsrv : I.wgServer = some srv) :
    ∃ secret subnetBase, m.interfaceKey = some (encodeKey secret) ∧ api.x25519 secret = c.serverKey ∧
      srv = I.config.server c.serverKey subnetBase := by
  obtain ⟨secret, hlast, hkey⟩ := H.key
  obtain ⟨secret', subnetBase, hlast', hiface, -, hserver⟩ := H.server I srv hI hsrv
  cases generateKeypair_injective (Option.some.inj (hlast.symm.trans hlast'))
  exact ⟨secret, subnetBase, hiface, hkey, hkey ▸ hserver⟩

theorem renewal_congr {result result' : LeaseResult} (href : result.leaseRef = result'.leaseRef)
    (hexp : result.leaseExpiresAt = result'.leaseExpiresAt) (seconds : Int) :
    renewal "wireguard" format seconds result = renewal "wireguard" format seconds result' := by
  rw [renewal, href, hexp]
  rfl

theorem WgTable.KeysMeet.renewal {P : Int → Option String → Option String → Prop} {stores : Stores}
    (H : stores.table.KeysMeet P) (W : Worker) (format : String) (seconds : Int) (result : LeaseResult) (env : LeaseEnv) :
    (getWorkerConfig W stores (renewal "wireguard" format seconds result) env).2.table.KeysMeet P := H.extendWireguard

/-- A renewal in time is granted, with the tunnel of the client and the texts of the settings in force. -/
theorem Machine.Holds.renew {result : LeaseResult} {env : LeaseEnv} (H : m.Holds api subnet c id result.leaseExpiresAt)
    (href : result.leaseRef = Decimal.display id) (hI : m.running = some I) (format : String) (seconds : Int)
    (hupdate : env.update = .ok ()) (hlive : env.updateMs < result.leaseExpiresAt) :
    ∃ result' stores,
      getWorkerConfig I.worker m.toStores (renewal "wireguard" format seconds result) env = (.ok result', stores) ∧
      ({ m with toStores := stores } : Machine).Holds api subnet c id result'.leaseExpiresAt ∧
      result'.leaseRef = Decimal.display id ∧ result'.leaseExpiresAt = newExpiresAt env.nowMs seconds ∧
      result' = peerResult ((c.under I).peerConfig (Wrap.asU16 id)) format id (newExpiresAt env.nowMs seconds) := by
  obtain ⟨row, hstored, hexp, hpeer⟩ := H.lease
  obtain ⟨srv, text, hsrv, hnames, hstands⟩ := hpeer I hI
  obtain ⟨_, _, -, -, hserver⟩ := H.server_key hI hsrv
  rw [← hexp] at hlive
  obtain ⟨_, stores, rfl, hstands', hrenew⟩ := hstands.renew I.worker format seconds hsrv hupdate hlive
  have heq : renewal "wireguard" format seconds result =
      renewal "wireguard" format seconds (HeldPeer.answer (c.peer api id row text) srv format) :=
    renewal_congr href hexp.symm seconds
  have hkeys : ∀ P, m.table.KeysMeet P → stores.table.KeysMeet P := by
    intro P hP
    have hkept := hP.renewal I.worker format seconds (HeldPeer.answer (c.peer api id row text) srv format) env
    rw [hrenew] at hkept
    exact hkept
  have hfounded : ({ m with toStores := stores } : Machine).Founded api subnet :=
    ⟨H.drawn, ⟨hkeys _ H.inSubnet.fits, hkeys _ H.inSubnet.sited⟩, H.uses, H.server⟩
  obtain ⟨hprivate, hpublic, hpreshared, hallowed⟩ := hstored.carries
  have hstored' : c.Stored api id _ stores.table :=
    ⟨hstands'.row, ⟨hprivate, hpublic, hpreshared, hallowed⟩, hkeys _ hstored.sole⟩
  refine ⟨_, stores, heq ▸ hrenew, ⟨hfounded, H.key, _, hstored', rfl, fun I' hI' => ?_⟩, rfl, rfl, ?_⟩
  · cases hI.symm.trans hI'
    exact ⟨srv, text, hsrv, hnames, hstands'⟩
  · rw [hserver]
    rfl

/-- The client of the tunnel has the lease by its last answer. -/
def Stay.OfTunnel (api : WgApi) (subnet : String) (c : Tunnel) (id : Int) (s : Stay) : Prop :=
  s.machine.Holds api subnet c id s.result.leaseExpiresAt ∧ s.result.leaseRef = Decimal.display id

theorem Stay.OfTunnel.step {a : StayAct} (haddr : api.AcceptsAddresses) (H : s.OfTunnel api subnet c id)
    (htime : s.InTime api subnet (api.x25519 c.privateKey) a) (h : s.step format a = some t) : t.OfTunnel api subnet c id := by
  obtain ⟨H, href⟩ := H
  cases a with
  | machine a =>
    obtain ⟨machine, hmachine, rfl⟩ := Option.map_eq_some_iff.mp h
    refine ⟨?_, href⟩
    cases a with
    | background a => exact H.background href htime.1 htime.2 hmachine
    | start I wg dir proxies =>
      cases hmachine
      obtain ⟨huses, hsubnet, hkeeps, hmock, hlive, hrows, hkernel⟩ := htime
      exact H.start haddr huses hsubnet hkeeps hmock hlive hrows hkernel
    | stop iface =>
      cases hmachine
      obtain ⟨row, hstored, hexp, -⟩ := H.lease
      exact ⟨H.toFounded.step (a := .stop iface) trivial rfl, H.key, row, hstored, hexp, fun _ h => by cases h⟩
  | renew seconds env =>
    obtain ⟨hupdate, hlive⟩ := htime
    simp only [Stay.step] at h
    split at h
    · cases h
    · next I hI =>
      obtain ⟨result, stores, hrenew, H', href', -, -⟩ := H.renew href hI format seconds hupdate hlive
      rw [hrenew] at h
      cases h
      exact ⟨H', href'⟩

/-- No entry of the map and no row has this key. -/
structure Machine.Unused (m : Machine) (key : Key) : Prop where
  entries : ∀ k st, m.peers k = some st → ¬st.HasKey key
  rows : m.table.KeysMeet fun _ pub _ => ¬Reads key pub

/-- The row of a new lease is in the subnet of the server that grants it. -/
theorem WgTable.InSubnet.grant {l : HeldPeer} {env : AllocateEnv} {t t' : WgTable} (S : t.InSubnet subnet)
    (hsrv : Ipv4Addr.parse subnet = some srv.subnetBase) (hrow : t'.get? l.id = some l.row) (hdrawn : l.Drawn api srv env t t') :
    t'.InSubnet subnet where
  fits id r hr := by
    rcases hdrawn.others hr with rfl | hr
    · exact hdrawn.allocated
    · exact S.fits _ _ hr
  sited id r hr := by
    rcases hdrawn.others hr with rfl | hr
    · cases hrow.symm.trans hr
      refine fun _ => ⟨srv, hsrv, ?_⟩
      rw [hdrawn.carries.allowedIp, hdrawn.state]
      rfl
    · exact S.sited _ _ hr

/-- A new lease that is granted under an unused key is the lease of a tunnel. -/
theorem Machine.Founded.granted {env : LeaseEnv} {stores : Stores} {seconds : Int} {result : LeaseResult}
    (H : m.Founded api subnet) (hI : m.running = some I) (hmock : I.config.ciMockWgContainer = false)
    (hunused : m.Unused (api.x25519 env.allocate.secret))
    (hgrant : getWorkerConfig I.worker m.toStores (freshRequest "wireguard" format seconds) env = (.ok result, stores)) :
    ∃ c id, Stay.OfTunnel api subnet c id ⟨{ m with toStores := stores }, result⟩ ∧ c.privateKey = env.allocate.secret ∧
      c.dns = I.config.wgDns ∧ c.endpoint = I.endpoint ∧
      result = peerResult (c.peerConfig (Wrap.asU16 id)) format id result.leaseExpiresAt := by
  obtain rfl := H.uses I hI
  obtain ⟨l, srv, hsrv, hstands, hdrawn, rfl⟩ := granted_stands hmock (fun h => H.inSubnet.fits16 h)
    (fun h => hunused.entries _ _ h) hgrant
  obtain ⟨secret, subnetBase, hlast, hkey, hparse, rfl⟩ := H.server I srv hI hsrv
  let srv := I.config.server (I.api.x25519 secret) subnetBase
  let c : Tunnel :=
    ⟨peerIp srv (Wrap.asU16 l.id), env.allocate.secret, I.config.wgDns, I.api.x25519 secret, env.allocate.psk, I.endpoint⟩
  have hstate : l.state = c.state I.api l.id := hdrawn.state
  have hpeer : l = c.peer I.api l.id l.row (allowedIpText srv (Wrap.asU16 l.id)) := by
    cases l
    simp only [Tunnel.peer, HeldPeer.mk.injEq, true_and]
    exact ⟨hstate, hdrawn.key, hdrawn.peer⟩
  have hstands' : (c.peer I.api l.id l.row (allowedIpText srv (Wrap.asU16 l.id))).Stands stores.toWgState := by
    rw [← hpeer]
    exact hstands
  have hsole : stores.table.KeysMeet fun id pub _ => Reads (I.api.x25519 env.allocate.secret) pub → id = l.id := by
    intro id r hr hread
    rcases hdrawn.others hr with hid | hr
    · exact hid
    · exact absurd hread (hunused.rows _ _ hr)
  have hstored : c.Stored I.api l.id l.row stores.table := ⟨hstands.row, hstate ▸ hdrawn.carries, hsole⟩
  have hinSubnet : stores.table.InSubnet subnet := H.inSubnet.grant hparse hstands.row hdrawn
  have hfounded : ({ m with toStores := stores } : Machine).Founded I.api subnet := ⟨H.drawn, hinSubnet, H.uses, H.server⟩
  refine ⟨c, l.id, ⟨⟨hfounded, ⟨secret, hlast, rfl⟩, l.row, hstored, rfl, fun I' hI' => ?_⟩, rfl⟩, rfl, rfl, rfl, ?_⟩
  · cases hI.symm.trans hI'
    exact ⟨srv, _, hsrv, Or.inr rfl, hstands'⟩
  · rw [HeldPeer.answer, hstate]
    rfl

/-- The settings that go into a config are on one line each, without white space at their ends. -/
structure Installation.Tidy (I : Installation) : Prop where
  dns : Ini.Tidy isWhiteSpace I.config.wgDns.toList
  host : Ini.Tidy isWhiteSpace I.config.serverPublicHost.toList

end Stays

end TpnWorker
