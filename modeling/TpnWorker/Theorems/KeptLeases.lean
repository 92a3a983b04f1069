import TpnWorker.Background
import TpnWorker.Theorems.PeerIds

/-! Leases that a worker keeps while it works for others. Whatever the outcomes of its calls, no request of another client,
    no registration attempt and no periodic pass touches a lease whose expiry lies ahead: its row, its peer and its key on
    the interface, or its slot and its password. -/

namespace TpnWorker
open Keyed Transition

/-- A WireGuard lease in full: its row, its entry in the map and its key on the interface. -/
structure HeldPeer where
  id : Int
  row : WgRow
  state : PeerState
  key : Key
  peer : KernelPeer

/-- The lease stands, with its address on the interface, its key belongs to no other entry, and every row has an id that a
    peer can have. -/
structure HeldPeer.Stands (l : HeldPeer) (s : WgState) : Prop where
  row : s.table.get? l.id = some l.row
  entry : s.peers (Wrap.asU16 l.id) = some l.state
  key : s.iface l.key = some l.peer
  route : s.iface.routes l.state.allowedIp = some l.key
  owner : ∀ {k st}, s.peers k = some st → st.HasKey l.key → k = Wrap.asU16 l.id
  fits : ∀ {id r}, s.table.get? id = some r → 0 ≤ id ∧ id < 65536

/-- The server gives the address of the lease to no other id that it allocates. -/
def HeldPeer.Apart (l : HeldPeer) (srv : WireGuardServer) : Prop :=
  ∀ id, 1 ≤ id → id ≤ 253 → id ≠ l.id → peerIp srv (Wrap.asU16 id) ≠ l.state.allowedIp

/-! ### Requests for the other kind -/

section Kinds
variable (W : Worker) (s : Stores) (req : LeaseRequest) (env : LeaseEnv)

theorem extendSocks5_toWgState (ref : String) (expected : Int) :
    (extendSocks5 s req ref expected env).2.toWgState = s.toWgState := by
  unfold extendSocks5
  split
  · rfl
  · split
    · rfl
    · split
      · rfl
      · split <;> rfl

theorem allocateSocks5_toWgState : (allocateSocks5 W s req env).2.toWgState = s.toWgState := by
  simp only [allocateSocks5]
  generalize (if (!req.priority && decide (countAvailableSocks s.socks W.config.prioritySlots = 0)) = true then
    (cleanupExpiredSocks5Configs s.socks env.cleanupMs).2 else s.socks) = socks
  split
  · rfl
  · split <;> rfl

theorem extendWireguard_socks (ref : String) (expected : Int) :
    (extendWireguard W s req ref expected env).2.socks = s.socks := by
  unfold extendWireguard
  split
  · rfl
  · split
    · rfl
    · split
      · rfl
      · split
        · rfl
        · split <;> rfl

theorem allocateWireguard_socks : (allocateWireguard W s req env).2.socks = s.socks := by
  simp only [allocateWireguard]
  split
  · split <;> rfl
  · split
    · rfl
    · split <;> rfl

end Kinds

/-! ### WireGuard leases -/

namespace HeldPeer.Stands
variable {l : HeldPeer} {s s' : WgState} {t : WgTable} {id : Int} {k : ℕ} {api : WgApi} {srv : WireGuardServer}

theorem inRange (H : l.Stands s) : 0 ≤ l.id ∧ l.id < 65536 := H.fits H.row

/-- A table that keeps the row, and whose other rows are in range. -/
theorem table (H : l.Stands s) (hrow : t.get? l.id = some l.row) (hfits : ∀ {id r}, t.get? id = some r → 0 ≤ id ∧ id < 65536) :
    l.Stands { s with table := t } := { H with row := hrow, fits := hfits }

theorem ne_asU16 (H : l.Stands s) (h₁ : 0 ≤ id) (h₂ : id < 65536) (hne : id ≠ l.id) : Wrap.asU16 id ≠ Wrap.asU16 l.id :=
  fun h => hne (Wrap.asU16_injOn h₁ h₂ H.inRange.1 H.inRange.2 h)

/-- A peer of another id is added, under another key and another address. -/
theorem addPeer (api : WgApi) (psk : Key) (kernel : Except String Unit) {secret : Key} (H : l.Stands s)
    (hk : k ≠ Wrap.asU16 l.id) (hnew : api.x25519 secret ≠ l.key) (haddress : peerIp srv k ≠ l.state.allowedIp) :
    l.Stands (addPeer api srv s k secret psk kernel).2 := by
  cases h : TpnWorker.addPeer api srv s k secret psk kernel with
  | mk result s' =>
    cases result with
    | error e =>
      obtain rfl := addPeer_error h
      exact H
    | ok cfg =>
      obtain rfl := addPeer_added h
      refine ⟨H.row, ?_, ?_, ?_, fun {k' st} hst hkey => ?_, H.fits⟩
      · exact (Function.update_of_ne (Ne.symm hk) _ _).trans H.entry
      · exact (Interface.configure_of_ne (Ne.symm hnew)).trans H.key
      · refine Interface.routes_configure_of_ne H.route (Ne.symm hnew) fun allowedIp hmem hallows => ?_
        obtain rfl := List.mem_singleton.mp hmem
        exact haddress hallows.of_subnet
      · rcases Function.update_some_cases hst with ⟨rfl, rfl⟩ | ⟨-, hst⟩
        · have hread : decodeKey api "" "" _ = .ok l.key := decodeKey_eq_ok_iff.mpr hkey
          rw [show (newPeerState api srv k' secret psk).publicKey = encodeKey (api.x25519 secret) from rfl,
            decodeKey_encodeKey] at hread
          exact absurd (Except.ok.inj hread) hnew
        · exact H.owner hst hkey

theorem removePeer {kernel : Except String Unit} (H : l.Stands s) (hk : k ≠ Wrap.asU16 l.id) :
    l.Stands (removePeer api s k kernel).2 := by
  have hpeers := removePeer_peers api s k kernel
  have htable := removePeer_table api s k kernel
  have hiface : (TpnWorker.removePeer api s k kernel).2.iface = s.iface ∨ ∃ key, l.key ≠ key ∧
      (TpnWorker.removePeer api s k kernel).2.iface = s.iface.remove key := by
    rw [TpnWorker.removePeer]
    split
    · exact Or.inl rfl
    · next st hst =>
      simp only [removeFromInterface]
      split
      · exact Or.inl rfl
      · next key hdecode =>
        split
        · exact Or.inl rfl
        · refine Or.inr ⟨key, ?_, rfl⟩
          rintro rfl
          exact hk (H.owner hst (decodeKey_eq_ok_iff.mp hdecode))
  refine ⟨by rw [htable]; exact H.row, ?_, ?_, ?_, fun {k' st} hst hkey => ?_, fun {id r} hr => H.fits (htable ▸ hr)⟩
  · rw [hpeers, Function.update_of_ne (Ne.symm hk)]
    exact H.entry
  · rcases hiface with hiface | ⟨key, hne, hiface⟩ <;> rw [hiface]
    · exact H.key
    · rw [Interface.remove_of_ne hne]
      exact H.key
  · rcases hiface with hiface | ⟨key, hne, hiface⟩ <;> rw [hiface]
    · exact H.route
    · exact Interface.routes_remove_of_ne H.route hne
  · rw [hpeers] at hst
    exact H.owner (Function.update_none_cases hst).2 hkey

/-- A registration that reserves an id, or is refused. -/
theorem register {startId endId expiresAt purgeMs : Int} {nowStr : String} {result : Except AppError WgLease}
    (H : l.Stands s) (hstart : 0 ≤ startId) (hrange : startId ≤ endId) (hend : endId ≤ 65535) (hlive : purgeMs ≤ l.row.expiresAt)
    (h : registerWireguardLease s.table startId endId expiresAt purgeMs nowStr = (result, t)) :
    l.Stands { s with table := t } ∧
      ∀ lease, result = .ok lease → startId ≤ lease.peerId ∧ lease.peerId ≤ endId ∧ lease.peerId ≠ l.id := by
  cases result with
  | error e =>
    obtain ⟨-, rfl, -, -⟩ := registerWireguardLease_error h
    refine ⟨H.table (get?_cleanup_eq_some.mpr ⟨H.row, hlive⟩) fun {id r} hr => ?_, fun _ h => by cases h⟩
    exact H.fits (get?_cleanup_eq_some.mp hr).1
  | ok lease =>
    obtain ⟨t₀, ht₀, hselect, -, rfl⟩ := registerWireguardLease_ok h
    obtain ⟨hfree, hlow, hhigh⟩ := selectAvailableId_eq_some hrange hselect
    have hrow₀ : t₀.get? l.id = some l.row := by
      rcases ht₀ with rfl | ⟨-, rfl⟩
      · exact H.row
      · exact get?_cleanup_eq_some.mpr ⟨H.row, hlive⟩
    have hfits₀ : ∀ {id r}, t₀.get? id = some r → 0 ≤ id ∧ id < 65536 := by
      intro id r hr
      rcases ht₀ with rfl | ⟨-, rfl⟩
      · exact H.fits hr
      · exact H.fits (get?_cleanup_eq_some.mp hr).1
    have hne : lease.peerId ≠ l.id := by
      intro heq
      rw [heq, hrow₀] at hfree
      cases hfree
    refine ⟨H.table ?_ fun {id r} hr => ?_, fun _ h => ?_⟩
    · rw [get?_insertLease_of_free hfree, if_neg (Ne.symm hne), hrow₀]
    · rw [get?_insertLease_of_free hfree] at hr
      split at hr
      · next hid =>
        subst hid
        omega
      · exact hfits₀ hr
    · cases h
      exact ⟨hlow, hhigh, hne⟩

theorem free {expiresAt : Int} (H : l.Stands s) (hne : id ≠ l.id) :
    l.Stands { s with table := markConfigAsFree s.table id (some expiresAt) } :=
  H.table (get?_markConfigAsFree.mpr ⟨H.row, fun h => hne h.1.symm⟩) fun hr => H.fits (get?_markConfigAsFree.mp hr).1

theorem storeKeys {priv psk ip : String} {update : Except String Unit} {result : Except AppError Unit} (H : l.Stands s)
    (hne : id ≠ l.id) (h : storePeerKeys api s.table id priv psk ip update = (result, t)) :
    l.Stands { s with table := t } := by
  rcases storePeerKeys_cases h with ⟨pub, -, -, -, rfl⟩ | ⟨e, -, rfl⟩
  · have hid : l.row.id = l.id := Table.get?_key H.row
    refine H.table ?_ fun {id r} hr => ?_
    · rw [get?_updatePeerKeys, H.row, Option.map_some, if_neg (hid ▸ Ne.symm hne)]
    · rw [get?_updatePeerKeys] at hr
      obtain ⟨r₀, hr₀, -⟩ := Option.map_eq_some_iff.mp hr
      exact H.fits hr₀
  · exact H

theorem allocate (expiresAt : Int) {startId endId : Int} {env : AllocateEnv} (H : l.Stands s)
    (hstart : 1 ≤ startId) (hrange : startId ≤ endId) (hend : endId ≤ 253) (hlive : env.purgeMs ≤ l.row.expiresAt)
    (hnew : api.x25519 env.secret ≠ l.key) (hapart : l.Apart srv) :
    l.Stands (allocatePeer api srv s startId endId expiresAt env).2 := by
  simp only [allocatePeer]
  split
  · next e t hregister => exact (H.register (by omega) hrange (by omega) hlive hregister).1
  · next lease t hregister =>
    obtain ⟨H, hreserved⟩ := H.register (by omega) hrange (by omega) hlive hregister
    obtain ⟨hlow, hhigh, hne⟩ := hreserved lease rfl
    have hk := H.ne_asU16 (by omega) (by omega) hne
    have H := H.addPeer api env.psk env.configurePeer hk hnew (hapart _ (by omega) (by omega) hne)
    split
    · next hadd =>
      rw [hadd] at H
      exact H.free hne
    · next cfg s' hadd =>
      rw [hadd] at H
      split
      · next hstore => exact ((H.storeKeys hne hstore).removePeer hk).free hne
      · next hstore => exact H.storeKeys hne hstore

theorem extend (expected new nowMs : Int) (nowStr : String) (H : l.Stands s) (hne : id ≠ l.id) :
    l.Stands { s with table := (extendWireguardLease s.table id expected new nowMs nowStr).2 } := by
  cases h : extendWireguardLease s.table id expected new nowMs nowStr with
  | mk result t =>
    cases result with
    | error e =>
      obtain ⟨rfl, -, -⟩ := extendWireguardLease_error h
      exact H
    | ok lease =>
      obtain ⟨r, hr, -, -, -, hget⟩ := extendWireguardLease_ok h
      refine H.table ?_ fun {id' r'} hr' => ?_
      · rw [hget, if_neg (Ne.symm hne)]
        exact H.row
      · rw [hget] at hr'
        split at hr'
        · next hid => exact hid ▸ H.fits hr
        · exact H.fits hr'

theorem removeExpired {kernel : Int → Except String Unit} {listed : List Int} (H : l.Stands s)
    (hlisted : ∀ id ∈ listed, (0 ≤ id ∧ id < 65536) ∧ id ≠ l.id) : l.Stands (removeExpiredPeers api kernel listed s) := by
  induction listed generalizing s with
  | nil => exact H
  | cons id rest ih =>
    obtain ⟨⟨hlow, hhigh⟩, hne⟩ := hlisted id List.mem_cons_self
    exact ih (H.removePeer (H.ne_asU16 hlow hhigh hne)) fun id hid => hlisted id (List.mem_cons_of_mem _ hid)

theorem cleanup {config : AppConfig} {wgServer : Option WireGuardServer} {env : CleanupEnv} (H : l.Stands s)
    (hnow : env.nowMs ≤ l.row.expiresAt) (hquery : env.queryMs ≤ l.row.expiresAt) :
    l.Stands (databaseCleanup api config wgServer s env) := by
  have hlisted : ∀ id ∈ expiredPeerIds s.table env.queryMs, (0 ≤ id ∧ id < 65536) ∧ id ≠ l.id := by
    intro id hid
    obtain ⟨r, hr, hlt⟩ := mem_expiredPeerIds.mp hid
    refine ⟨H.fits hr, ?_⟩
    rintro rfl
    cases H.row.symm.trans hr
    omega
  have hremoved : l.Stands (removeExpiredFromInterface api wgServer s env) := by
    unfold removeExpiredFromInterface
    split
    · exact H.removeExpired hlisted
    · exact H
  unfold databaseCleanup
  split
  · exact hremoved.table (get?_cleanupTable_eq_some.mpr ⟨hremoved.row, fun _ => hnow⟩)
      fun hr => hremoved.fits (get?_cleanupTable_eq_some.mp hr).1
  · exact H

/-- A request of another client, with any outcome. -/
theorem request {W : Worker} {stores : Stores} {req : LeaseRequest} {env : LeaseEnv} (H : l.Stands stores.toWgState)
    (hlive : ∀ now ∈ env.readings, now ≤ l.row.expiresAt) (hnew : W.api.x25519 env.allocate.secret ≠ l.key)
    (hapart : ∀ srv, W.wgServer = some srv → l.Apart srv)
    (hother : ∀ ref, req.leaseType = "wireguard" → req.extendRef = some ref → parseI32 ref ≠ some l.id) :
    l.Stands (getWorkerConfig W stores req env).2.toWgState := by
  have hpurge : env.allocate.purgeMs ≤ l.row.expiresAt := hlive _ (by simp [LeaseEnv.readings])
  let range := PeerRange.ofConfig W.config
  simp only [getWorkerConfig]
  split
  · next ref href =>
    split
    · exact H
    · next expected _ =>
      split
      · next htype =>
        simp only [extendWireguard]
        split
        · exact H
        · next peerId hparse =>
          have hne : peerId ≠ l.id := fun heq => hother ref htype href (heq ▸ hparse)
          have H' := H.extend expected (newExpiresAt env.nowMs req.leaseSeconds) env.updateMs env.nowStr hne
          split
          · exact H
          · split
            · next hext =>
              rw [hext] at H'
              exact H'
            · next hext =>
              rw [hext] at H'
              split
              · exact H'
              · split <;> exact H'
      · split
        · rw [extendSocks5_toWgState]
          exact H
        · exact H
  · split
    · simp only [allocateWireguard]
      split
      · split
        · next hregister => exact (H.register range.start_nonneg range.start_le range.end_le hpurge hregister).1
        · next hregister => exact (H.register range.start_nonneg range.start_le range.end_le hpurge hregister).1
      · split
        · exact H
        · next srv hserver =>
          have H' := H.allocate (newExpiresAt env.nowMs req.leaseSeconds) (PeerRange.one_le_ofConfig W.config) range.start_le
            (PeerRange.ofConfig_le W.config) hpurge hnew (hapart srv hserver)
          split
          · next hallocate =>
            rw [hallocate] at H'
            exact H'
          · next hallocate =>
            rw [hallocate] at H'
            exact H'
    · split
      · rw [allocateSocks5_toWgState]
        exact H
      · exact H

end HeldPeer.Stands

/-! ### SOCKS5 leases -/

/-- The slot is leased exclusively, with this row. -/
structure HeldSlot (slot : Socks5Config) (t : Socks5Table) : Prop where
  row : readSocks5ConfigByUsername t slot.username = some slot
  taken : slot.available = false

namespace HeldSlot
variable {slot config : Socks5Config} {t : Socks5Table} {p : Socks5Config → Bool} {u : Socks5Update}

theorem updateWhere (H : HeldSlot slot t) (hp : p slot = false) : HeldSlot slot (t.updateWhere p u) where
  row := by rw [Socks5Table.read_updateWhere_of H.row, if_neg (by simp [hp])]
  taken := H.taken

/-- An available row belongs to another user. -/
theorem username_ne (H : HeldSlot slot t) (hrow : config ∈ t.rows) (havailable : config.available = true) :
    slot.username ≠ config.username := by
  intro heq
  have hread := Socks5Table.read_eq_some_iff.mpr ⟨hrow, rfl⟩
  rw [← heq, H.row] at hread
  cases hread
  cases H.taken.symm.trans havailable

theorem cleanup {nowMs : Int} (H : HeldSlot slot t) (hlive : nowMs < slot.expiresAt) :
    HeldSlot slot (cleanupExpiredSocks5Configs t nowMs).2 := by
  refine H.updateWhere ?_
  simp [hlive]

theorem extend (expected new nowMs : Int) {username : String} (H : HeldSlot slot t) (hne : username ≠ slot.username) :
    HeldSlot slot (extendSocks5Lease t username expected new nowMs).2 := by
  have hupdate : (extendSocks5Lease t username expected new nowMs).2 =
      t.updateWhere (socks5ExtensionMatches username expected nowMs) (extendedTo new nowMs) := by
    unfold extendSocks5Lease
    dsimp only
    split <;> rfl
  rw [hupdate]
  refine H.updateWhere ?_
  simp [socks5ExtensionMatches, Ne.symm hne]

theorem priority {expiresAt slots : Int} {env : Socks5Env} (H : HeldSlot slot t) :
    HeldSlot slot (getSocks5ConfigPriority t expiresAt slots env).2 := by
  simp only [getSocks5ConfigPriority]
  split
  · exact H
  · next config hconfig =>
    obtain ⟨hrow, havailable⟩ := Socks5Table.mem_of_selectAvailable (List.mem_of_getElem? hconfig)
    refine H.updateWhere ?_
    simp [H.username_ne hrow havailable]

theorem mark {slots expiresAt nowMs : Int} (H : HeldSlot slot t) (hconfig : nonPriorityConfig t slots = some config) :
    HeldSlot slot (markUnavailable t config expiresAt nowMs) := by
  obtain ⟨hrow, havailable⟩ := Socks5Table.mem_of_selectAvailable (List.mem_of_head? hconfig)
  refine H.updateWhere ?_
  simp [H.username_ne hrow havailable]

theorem nonPriority {expiresAt slots : Int} {env : Socks5Env} (H : HeldSlot slot t) (hlive : env.cleanupMs < slot.expiresAt) :
    HeldSlot slot (getSocks5ConfigNonPriority t expiresAt slots env).2 := by
  simp only [getSocks5ConfigNonPriority]
  split
  · next hconfig => exact H.mark hconfig
  · split
    · next hconfig => exact (H.cleanup hlive).mark hconfig
    · exact H.cleanup hlive

theorem allocate {W : Worker} {s : Stores} {req : LeaseRequest} {env : LeaseEnv} (H : HeldSlot slot s.socks)
    (hlive : ∀ now ∈ env.readings, now < slot.expiresAt) : HeldSlot slot (allocateSocks5 W s req env).2.socks := by
  have hcleanup : env.cleanupMs < slot.expiresAt := hlive _ (by simp [LeaseEnv.readings])
  have hlocked : env.socks.cleanupMs < slot.expiresAt := hlive _ (by simp [LeaseEnv.readings])
  simp only [allocateSocks5]
  generalize hsocks : (if (!req.priority && decide (countAvailableSocks s.socks W.config.prioritySlots = 0)) = true then
    (cleanupExpiredSocks5Configs s.socks env.cleanupMs).2 else s.socks) = socks
  have H' : HeldSlot slot socks := by
    rw [← hsocks]
    split
    · exact H.cleanup hcleanup
    · exact H
  have hget : HeldSlot slot (getSocks5Config socks (newExpiresAt env.nowMs req.leaseSeconds) req.priority
      W.config.prioritySlots env.socks).2 := by
    unfold getSocks5Config
    split
    · exact H'.priority
    · exact H'.nonPriority hlocked
  split
  · exact H'
  · split
    · next hconfig =>
      rw [hconfig] at hget
      exact hget
    · next hconfig =>
      rw [hconfig] at hget
      exact hget

/-- A request of another client, with any outcome. -/
theorem request {W : Worker} {s : Stores} {req : LeaseRequest} {env : LeaseEnv} (H : HeldSlot slot s.socks)
    (hlive : ∀ now ∈ env.readings, now < slot.expiresAt)
    (hother : ∀ ref, req.leaseType = "socks5" → req.extendRef = some ref → ref ≠ slot.username) :
    HeldSlot slot (getWorkerConfig W s req env).2.socks := by
  simp only [getWorkerConfig]
  split
  · next ref href =>
    split
    · exact H
    · next expected _ =>
      split
      · rw [extendWireguard_socks]
        exact H
      · split
        · next htype =>
          have H' := H.extend expected (newExpiresAt env.nowMs req.leaseSeconds) env.updateMs (hother ref htype href)
          simp only [extendSocks5]
          split
          · exact H
          · split
            · next hext =>
              rw [hext] at H'
              exact H'
            · next hext =>
              rw [hext] at H'
              split
              · exact H'
              · split <;> exact H'
        · exact H
  · split
    · rw [allocateWireguard_socks]
      exact H
    · split
      · exact H.allocate hlive
      · exact H

end HeldSlot

end TpnWorker
