import Mathlib.Data.Finset.Card
import TpnWorker.Background
import TpnWorker.Lib.Pool
import TpnWorker.Theorems.ExpiryArithmetic
import TpnWorker.Theorems.PeerIds
import TpnWorker.Theorems.SlotCounts

/-! The registration loop over its attempts. Every attempt leases a peer and a slot for two minutes and never gives them
    back, but the attempts are spaced, so that a few ids and slots are enough for each of them to carry both
    configurations, however long the pool takes to confirm. -/

namespace TpnWorker
open Keyed

/-! ### Peer ids -/

/-- The ids of the range. -/
def PeerRange.ids (range : PeerRange) : Finset Int :=
  (Finset.range (range.endId + 1 - range.startId).toNat).map
    ⟨fun k => range.startId + Int.ofNat k, fun _ _ h => Int.ofNat.inj (Int.add_left_cancel h)⟩

/-- The ids of the range that are leased at a time. -/
def busyIds (t : WgTable) (range : PeerRange) (now : Int) : Finset Int :=
  range.ids.filter fun id => ((t.get? id).any fun r => decide (now ≤ r.expiresAt)) = true

/-- The later table has one lease more. -/
def LeasesId (t t' : WgTable) (id expiresAt : Int) : Prop :=
  ∀ k r, t'.get? k = some r → k = id ∧ r.expiresAt = expiresAt ∨ t.get? k = some r

section Ids
variable {api : WgApi} {srv : WireGuardServer} {s : WgState} {t t' : WgTable} {range : PeerRange}
  {now later id expiresAt : Int} {env : AllocateEnv}

theorem PeerRange.mem_ids : id ∈ range.ids ↔ range.Mem id := by
  simp only [ids, Finset.mem_map, Finset.mem_range]
  constructor
  · rintro ⟨k, hk, hid⟩
    have hid : range.startId + (k : Int) = id := hid
    constructor <;> omega
  · rintro ⟨hstart, hend⟩
    refine ⟨(id - range.startId).toNat, by omega, ?_⟩
    show range.startId + ((id - range.startId).toNat : Int) = id
    omega

theorem PeerRange.card_ids : range.ids.card = (range.endId + 1 - range.startId).toNat := by
  rw [ids, Finset.card_map, Finset.card_range]

theorem mem_busyIds : id ∈ busyIds t range now ↔ range.Mem id ∧ ∃ r, t.get? id = some r ∧ now ≤ r.expiresAt := by
  rw [busyIds, Finset.mem_filter, PeerRange.mem_ids, Option.any_eq_true]
  simp

theorem busyIds_anti (h : now ≤ later) : busyIds t range later ⊆ busyIds t range now := by
  intro id hid
  obtain ⟨hmem, r, hr, hlive⟩ := mem_busyIds.mp hid
  exact mem_busyIds.mpr ⟨hmem, r, hr, h.trans hlive⟩

theorem LeasesId.card_busyIds (h : LeasesId t t' id expiresAt) :
    (busyIds t' range later).card ≤ (busyIds t range later).card + if later ≤ expiresAt then 1 else 0 := by
  split
  · refine (Finset.card_le_card (t := insert id (busyIds t range later)) fun k hk => ?_).trans (Finset.card_insert_le ..)
    obtain ⟨hmem, r, hr, hlive⟩ := mem_busyIds.mp hk
    rcases h k r hr with ⟨rfl, -⟩ | hr
    · exact Finset.mem_insert_self ..
    · exact Finset.mem_insert_of_mem (mem_busyIds.mpr ⟨hmem, r, hr, hlive⟩)
  · next hover =>
    rw [Nat.add_zero]
    refine Finset.card_le_card fun k hk => ?_
    obtain ⟨hmem, r, hr, hlive⟩ := mem_busyIds.mp hk
    rcases h k r hr with ⟨-, heq⟩ | hr
    · exact absurd (heq ▸ hlive) hover
    · exact mem_busyIds.mpr ⟨hmem, r, hr, hlive⟩

/-- With an id that is not leased, an allocation is granted one. -/
theorem allocatePeer_of_room (srv : WireGuardServer) (s : WgState) (expiresAt : Int) (haddr : api.AcceptsAddresses)
    (hconf : env.configurePeer = .ok ()) (hstore : env.storeKeys = .ok ())
    (hroom : (busyIds s.table range env.purgeMs).card < range.ids.card) :
    ∃ allocation s', allocatePeer api srv s range.startId range.endId expiresAt env = (.ok allocation, s') ∧
      allocation.expiresAt = expiresAt ∧ LeasesId s.table s'.table allocation.peerId expiresAt := by
  rw [allocatePeer_cases haddr hconf hstore]
  split
  · next e table hregister =>
    obtain ⟨hfree, hexpired, -⟩ := refused_full range.start_le hregister
    refine absurd hroom (not_lt.mpr (Finset.card_le_card fun id hid => mem_busyIds.mpr ?_))
    have hmem : range.Mem id := PeerRange.mem_ids.mp hid
    refine ⟨hmem, ?_⟩
    cases hrow : s.table.get? id with
    | none => exact absurd (hfree ▸ ⟨hmem, hrow⟩ : id ∈ (∅ : Set Int)) (Set.notMem_empty id)
    | some r =>
      refine ⟨r, rfl, not_lt.mp fun hlt => ?_⟩
      exact absurd (hexpired ▸ ⟨hmem, r, hrow, hlt⟩ : id ∈ (∅ : Set Int)) (Set.notMem_empty id)
  · next lease table hregister =>
    refine ⟨_, _, rfl, rfl, fun k r hr => ?_⟩
    obtain ⟨t₀, ht₀, hselect, -, htable⟩ := registerWireguardLease_ok hregister
    have hfree := (selectAvailableId_eq_some range.start_le hselect).1
    dsimp only at hr
    rw [get?_updatePeerKeys, htable, get?_insertLease_of_free hfree] at hr
    obtain ⟨r₀, hr₀, rfl⟩ := Option.map_eq_some_iff.mp hr
    split at hr₀
    · next hk =>
      cases hr₀
      refine Or.inl ⟨hk, ?_⟩
      split <;> rfl
    · next hk =>
      rw [if_neg]
      · rcases ht₀ with rfl | ⟨-, rfl⟩
        · exact Or.inr hr₀
        · exact Or.inr (get?_cleanup_eq_some.mp hr₀).1
      · have hkey := Table.get?_key hr₀
        simpa [hkey] using hk

end Ids

/-! ### Slots -/

namespace Socks5Table

/-- The users whose slots are leased at a time. -/
def heldNames (t : Socks5Table) (now : Int) : Finset String :=
  ((t.rows.filter fun r => !(r.available || decide (r.ExpiredAt now))).map (·.username)).toFinset

section Slots
variable {t t' : Socks5Table} {config : Socks5Config} {now later expiresAt nowMs : Int} {username : String} {n : ℕ}

theorem mem_heldNames : username ∈ t.heldNames now ↔
    ∃ r, readSocks5ConfigByUsername t username = some r ∧ r.available = false ∧ ¬r.ExpiredAt now := by
  simp only [heldNames, List.mem_toFinset, List.mem_map, List.mem_filter, Bool.not_eq_true', Bool.or_eq_false_iff,
    decide_eq_false_iff_not, read_eq_some_iff]
  exact exists_congr fun r => and_right_comm

/-- Every slot is leased or usable. -/
theorem card_heldNames_add_usable (t : Socks5Table) (now : Int) : (t.heldNames now).card + t.usable now = t.rows.length := by
  have hnodup : ((t.rows.filter fun r => !(r.available || decide (r.ExpiredAt now))).map (·.username)).Nodup :=
    t.unique.sublist (List.filter_sublist.map _)
  rw [heldNames, List.toFinset_card_of_nodup hnodup, List.length_map, usable, Nat.add_comm]
  exact (List.length_eq_length_filter_add _).symm

theorem heldNames_anti (h : now ≤ later) : t.heldNames later ⊆ t.heldNames now := by
  intro username hname
  obtain ⟨r, hr, htaken, hlive⟩ := mem_heldNames.mp hname
  exact mem_heldNames.mpr ⟨r, hr, htaken, fun hexp => hlive ⟨hexp.1, hexp.2.trans h⟩⟩

theorem names_reclaimed : (t.reclaimed n now).names = t.names := by
  unfold reclaimed
  split
  · rfl
  · exact names_updateWhere

/-- Reclaiming expired slots leases none. -/
theorem heldNames_reclaimed : (t.reclaimed n now).heldNames later ⊆ t.heldNames later := by
  unfold reclaimed
  split
  · exact Finset.Subset.refl _
  · intro username hname
    obtain ⟨r, hr, htaken, hlive⟩ := mem_heldNames.mp hname
    rw [cleanupExpiredSocks5Configs, read_updateWhere] at hr
    obtain ⟨r₀, hr₀, rfl⟩ := Option.map_eq_some_iff.mp hr
    split at htaken
    · cases htaken
    · next hspared =>
      rw [if_neg hspared] at hlive
      exact mem_heldNames.mpr ⟨r₀, hr₀, htaken, hlive⟩

theorem LeasesOnly.card_heldNames (nowMs later : Int) (h : LeasesOnly t t' config expiresAt nowMs) (hpos : 0 < expiresAt) :
    (t'.heldNames later).card ≤ (t.heldNames later).card + if later ≤ expiresAt then 1 else 0 := by
  have hother : ∀ {username}, username ∈ t'.heldNames later → username ≠ config.username → username ∈ t.heldNames later := by
    intro username hname hne
    obtain ⟨r, hr, hheld⟩ := mem_heldNames.mp hname
    rw [h username, if_neg hne] at hr
    exact mem_heldNames.mpr ⟨r, hr, hheld⟩
  split
  · refine (Finset.card_le_card (t := insert config.username (t.heldNames later)) fun username hname => ?_).trans
      (Finset.card_insert_le ..)
    by_cases heq : username = config.username
    · exact heq ▸ Finset.mem_insert_self ..
    · exact Finset.mem_insert_of_mem (hother hname heq)
  · next hover =>
    rw [Nat.add_zero]
    refine Finset.card_le_card fun username hname => hother hname ?_
    rintro rfl
    obtain ⟨r, hr, -, hlive⟩ := mem_heldNames.mp hname
    rw [h, if_pos rfl] at hr
    cases hr
    exact hlive ⟨hpos, (not_le.mp hover).le⟩

end Slots

end Socks5Table

/-! ### The two probes -/

/-- The calls of an attempt up to its request succeed, and the public port is reachable. -/
structure RegistrationEnv.Succeeds (env : RegistrationEnv) : Prop where
  reachable : env.publicUdpReachable = true
  client : env.client = .ok ()
  configurePeer : env.wireguard.allocate.configurePeer = .ok ()
  storeKeys : env.wireguard.allocate.storeKeys = .ok ()

/-- The clock readings that the two leases depend on. -/
def RegistrationEnv.times (env : RegistrationEnv) : List Int :=
  [env.wireguard.nowMs, env.wireguard.allocate.purgeMs, env.socks5.nowMs, env.socks5.cleanupMs]

theorem newExpiresAt_probe {nowMs : Int} (hclock : ChronoMillis nowMs) : newExpiresAt nowMs 120 = nowMs + 120000 := by
  have hshort : (120 : Int) ≤ (9223372036854775807 - max nowMs 0) / 1000 := by
    obtain ⟨hmin, hmax⟩ := hclock
    omega
  exact ((exactExpiry_iff hclock (by decide)).mpr hshort).exact

section Probes
variable {R : Registrar} {srv : WireGuardServer} {s : Stores} {env : RegistrationEnv}

/-- With an id that is not leased, an attempt has a WireGuard configuration. -/
theorem wireguardProbe_of_room (hmock : R.config.ciMockWgContainer = false) (hserver : R.wgServer = some srv)
    (haddr : R.api.AcceptsAddresses) (henv : env.Succeeds)
    (hroom : (busyIds s.table (.ofConfig R.config.toAppConfig) env.wireguard.allocate.purgeMs).card <
      R.config.effectivePeerCount) :
    ∃ text s' id, R.wireguardProbe s env = (some text, s') ∧ s'.socks = s.socks ∧
      LeasesId s.table s'.table id (newExpiresAt env.wireguard.nowMs 120) := by
  have hcard : (PeerRange.ofConfig R.config.toAppConfig).ids.card = R.config.effectivePeerCount := by
    rw [PeerRange.card_ids]
    simp [PeerRange.ofConfig]
  rw [← hcard] at hroom
  obtain ⟨allocation, wg, hallocate, hexp, hleases⟩ := allocatePeer_of_room srv s.toWgState
    (newExpiresAt env.wireguard.nowMs 120) haddr henv.configurePeer henv.storeKeys hroom
  refine ⟨allocation.peerConfig.toText, { s with toWgState := wg }, allocation.peerId, ?_, rfl, hleases⟩
  have hconfig : getWorkerConfig R.worker s (Registrar.probe "wireguard") env.wireguard =
      (.ok (peerResult allocation.peerConfig "text" allocation.peerId allocation.expiresAt), { s with toWgState := wg }) := by
    have hrequest : getWorkerConfig R.worker s (Registrar.probe "wireguard") env.wireguard =
        allocateWireguard R.worker s (Registrar.probe "wireguard") env.wireguard := rfl
    rw [hrequest, allocateWireguard]
    simp only [Registrar.worker, Registrar.probe, hmock, hserver, Bool.false_eq_true, if_false, hallocate]
  rw [Registrar.wireguardProbe, if_neg (by simp [henv.reachable]), Registrar.probeConfig, hconfig]
  rfl

/-- With a slot that is not leased, an attempt has a SOCKS5 configuration. -/
theorem socks5Probe_of_room (hclock : ChronoMillis env.socks5.nowMs)
    (hepoch : 0 ≤ env.socks5.nowMs)
    (hroom : (s.socks.heldNames env.socks5.cleanupMs).card + R.config.prioritySlots.toNat < s.socks.rows.length) :
    ∃ text s', R.probeConfig s "socks5" env.socks5 = (some text, s') ∧ s'.toWgState = s.toWgState ∧
      s'.socks.names = s.socks.names ∧ ∀ later, env.socks5.cleanupMs ≤ later →
        (s'.socks.heldNames later).card ≤
          (s.socks.heldNames later).card + if later ≤ env.socks5.nowMs + 120000 then 1 else 0 := by
  have hrequest : getWorkerConfig R.worker s (Registrar.probe "socks5") env.socks5 =
      allocateSocks5 R.worker s (Registrar.probe "socks5") env.socks5 := rfl
  have husable : R.config.prioritySlots.toNat < s.socks.usable env.socks5.cleanupMs := by
    have := s.socks.card_heldNames_add_usable env.socks5.cleanupMs
    omega
  have hslot := Socks5Table.lt_length_reclaimed.mpr husable
  have hrank := List.getElem?_eq_getElem hslot
  generalize (s.socks.reclaimed R.config.prioritySlots.toNat env.socks5.cleanupMs).freeRows[R.config.prioritySlots.toNat] =
    config at hrank
  have hrow := (Socks5Table.mem_of_mem_freeRows (List.mem_of_getElem? hrank)).1
  have hworker : R.worker.config.prioritySlots = R.config.prioritySlots := rfl
  have hexp : newExpiresAt env.socks5.nowMs (Registrar.probe "socks5").leaseSeconds = env.socks5.nowMs + 120000 :=
    newExpiresAt_probe hclock
  rw [Registrar.probeConfig, hrequest, allocateSocks5_eq rfl]
  simp only [hworker, hrank, hexp]
  refine ⟨_, _, rfl, rfl, ?_, fun later hlater => ?_⟩
  · exact Socks5Table.names_updateWhere.trans Socks5Table.names_reclaimed
  · have hleases := (Socks5Table.leasesOnly_markUnavailable hrow).card_heldNames env.socks5.socks.nowMs later
      (show 0 < env.socks5.nowMs + 120000 by omega)
    exact hleases.trans (Nat.add_le_add_right (Finset.card_le_card Socks5Table.heldNames_reclaimed) _)

end Probes

/-! ### The loop -/

/-- There is room for `m` leases in the range of ids and behind the priority slots, from `first` on. -/
structure Registrar.HasRoom (R : Registrar) (s : Registering) (m : ℕ) (first : Int) : Prop where
  ids : (busyIds s.table (.ofConfig R.config.toAppConfig) first).card + m ≤ R.config.effectivePeerCount
  slots : (s.socks.heldNames first).card + R.config.prioritySlots.toNat + m ≤ s.socks.rows.length

section Loop
variable {R : Registrar} {srv : WireGuardServer} {s : Registering} {env : RegistrationEnv} {envs : List RegistrationEnv}
  {d next first : Int} {m : ℕ}

/-- What the loop relies on before an attempt: both pools serve leases of two minutes, `d` apart. -/
structure Registrar.Ready (R : Registrar) (d : Int) (m : ℕ) (next : Int) (s : Registering) (ids slots : ℕ)
    (idExpiries slotExpiries : List Int) : Prop where
  idPool : Pool.Serves (fun later => (busyIds s.table (.ofConfig R.config.toAppConfig) later).card) ids 120000 d next idExpiries
  slotPool : Pool.Serves (fun later => (s.socks.heldNames later).card) slots 120000 d next slotExpiries
  enoughIds : ids + m ≤ R.config.effectivePeerCount
  enoughSlots : slots + R.config.prioritySlots.toNat + m ≤ s.socks.rows.length

theorem Registrar.HasRoom.ready (h : R.HasRoom s m first) :
    ∃ ids slots idExpiries slotExpiries, R.Ready d m first s ids slots idExpiries slotExpiries :=
  ⟨_, _, [], [], .start fun _ hlater => Finset.card_le_card (busyIds_anti hlater),
    .start fun _ hlater => Finset.card_le_card (Socks5Table.heldNames_anti hlater), h.ids, h.slots⟩

/-- One attempt posts both configurations, and leaves the pools ready for the next one. -/
theorem Registrar.Ready.attempt {ids slots : ℕ} {idExpiries slotExpiries : List Int} {next' : Int}
    (H : R.Ready d m next s ids slots idExpiries slotExpiries) (hmock : R.config.ciMockWgContainer = false)
    (hserver : R.wgServer = some srv) (haddr : R.api.AcceptsAddresses) (hd : 0 ≤ d) (hm : 120000 < m * d)
    (henv : env.Succeeds) (hclock : ∀ time ∈ env.times, 0 ≤ time ∧ ChronoMillis time)
    (hstart : ∀ time ∈ env.times, next ≤ time) (hnext : ∀ time ∈ env.times, time + d ≤ next') :
    ∃ wireguard socks5 s', (R.registerWithMiningPool s env).2 = (s', some (R.post (some wireguard) (some socks5))) ∧
      ∃ idExpiries slotExpiries, R.Ready d m next' s' ids slots idExpiries slotExpiries := by
  simp only [RegistrationEnv.times, List.forall_mem_cons] at hclock hstart hnext
  obtain ⟨⟨-, hclock₁⟩, -, ⟨hepoch, hclock₂⟩, -⟩ := hclock
  obtain ⟨hstart₁, hstart₂, hstart₃, hstart₄, -⟩ := hstart
  obtain ⟨hnext₁, hnext₂, hnext₃, hnext₄, -⟩ := hnext
  have hids := H.idPool.room hd (by decide) hm hstart₂
  obtain ⟨wireguard, stores, id, hwireguard, hsocks, hleases⟩ := wireguardProbe_of_room (s := s.toStores) hmock hserver haddr
    henv (hids.trans_le H.enoughIds)
  have hslots := H.slotPool.room hd (by decide) hm hstart₄
  have hroom : (stores.socks.heldNames env.socks5.cleanupMs).card + R.config.prioritySlots.toNat < stores.socks.rows.length := by
    have := H.enoughSlots
    rw [hsocks]
    omega
  obtain ⟨socks5, stores', hsocks5, hstate, hnames, hheld⟩ := socks5Probe_of_room hclock₂ hepoch hroom
  rw [newExpiresAt_probe hclock₁] at hleases
  have hserves : Pool.Serves (fun later => (busyIds stores'.table (.ofConfig R.config.toAppConfig) later).card) ids 120000 d
      next' _ := H.idPool.lease hstart₁ hnext₁ (by omega) hstart₂ fun later _ => by
    rw [hstate]
    exact hleases.card_busyIds
  have hserves' : Pool.Serves (fun later => (stores'.socks.heldNames later).card) slots 120000 d next' _ :=
    H.slotPool.lease hstart₃ hnext₃ (by omega) hstart₄ fun later hlater => by
      rw [← hsocks]
      exact hheld later hlater
  have hlength : stores'.socks.rows.length = s.socks.rows.length := by
    have := congrArg List.length hnames
    rw [Socks5Table.names, Socks5Table.names, List.length_map, List.length_map, hsocks] at this
    exact this
  have hready : ∀ log, R.Ready d m next' ⟨stores', log⟩ ids slots _ _ := fun log =>
    ⟨hserves, hserves', H.enoughIds, hlength ▸ H.enoughSlots⟩
  simp only [Registrar.registerWithMiningPool, hwireguard, hsocks5, henv.client]
  split
  · exact ⟨_, _, _, rfl, _, _, hready _⟩
  · exact ⟨_, _, _, rfl, _, _, hready _⟩

end Loop

end TpnWorker
