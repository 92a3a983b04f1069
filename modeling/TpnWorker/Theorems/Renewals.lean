import TpnWorker.Theorems.KeptLeases
import TpnWorker.Theorems.SlotCounts

/-! Leases that are renewed. A client that was granted a lease renews it with the reference and the expiry of the last
    answer, and in between the worker does other work, one operation at a time. As long as the lease has not expired, every
    renewal is granted, and every answer has the configuration of the first one. -/

namespace TpnWorker
open Keyed Transition

/-- A worker with a client that holds a lease, by the last answer to it. -/
structure Tenancy where
  node : Background
  result : LeaseResult

inductive TenancyAct where
  | background (a : BackgroundAct)
  | renew (seconds : Int) (env : LeaseEnv)

/-- The request for a new lease. -/
def freshRequest (leaseType format : String) (seconds : Int) : LeaseRequest := ⟨leaseType, seconds, false, format, none, none⟩

/-- The request that renews the lease of an answer. -/
def renewal (leaseType format : String) (seconds : Int) (result : LeaseResult) : LeaseRequest :=
  ⟨leaseType, seconds, false, format, some result.leaseRef, some result.leaseExpiresAt⟩

namespace Tenancy

/-- One operation of the worker, or one renewal that is granted. -/
def step (R : Registrar) (leaseType format : String) (s : Tenancy) : TenancyAct → Option Tenancy
  | .background a => (s.node.step R a).map fun node => { s with node }
  | .renew seconds env =>
    match getWorkerConfig R.worker s.node.toStores (renewal leaseType format seconds s.result) env with
    | (.ok result, stores) => some ⟨{ s.node with toStores := stores }, result⟩
    | (.error _, _) => none

/-- The lease has not expired at any clock reading of the step, and the step is no extension of it by someone else; `Same`
    tells whether two references name the same lease. -/
def InTime (leaseType : String) (Same : String → String → Prop) (s : Tenancy) : TenancyAct → Prop
  | .background a => (∀ now ∈ a.readings, now < s.result.leaseExpiresAt) ∧
      ∀ req env ref, a = .request req env → req.leaseType = leaseType → req.extendRef = some ref → ¬Same ref s.result.leaseRef
  | .renew _ env => env.update = .ok () ∧ env.read = .ok () ∧ env.updateMs < s.result.leaseExpiresAt

end Tenancy

/-! ### WireGuard -/

section Peer
variable {api : WgApi} {srv : WireGuardServer} {s s' : WgState} {startId endId expiresAt : Int} {env : AllocateEnv}
  {allocation : PeerAllocation}

theorem addPeer_config {peerId : ℕ} {secret psk : Key} {kernel : Except String Unit} {cfg : PeerConfig}
    (h : addPeer api srv s peerId secret psk kernel = (.ok cfg, s')) :
    cfg = clientConfig srv peerId (newPeerState api srv peerId secret psk) := by
  simp only [addPeer] at h
  split at h
  · cases h
  · exact (Except.ok.inj (Prod.mk.inj h).1).symm

/-- The lease has an id that is allocated and the keys that the call has drawn, its row carries them, and the other rows were
    there before. -/
structure HeldPeer.Drawn (l : HeldPeer) (api : WgApi) (srv : WireGuardServer) (env : AllocateEnv) (t t' : WgTable) : Prop where
  allocated : 1 ≤ l.id ∧ l.id ≤ 253
  key : l.key = api.x25519 env.secret
  state : l.state = newPeerState api srv (Wrap.asU16 l.id) env.secret env.psk
  peer : l.peer = ⟨some env.psk, [allowedIpText srv (Wrap.asU16 l.id)], some 25⟩
  carries : l.row.Carries l.state
  others : ∀ {id r}, t'.get? id = some r → id = l.id ∨ t.get? id = some r

/-- In the subnet of its server the address of the lease is its own. -/
theorem HeldPeer.Drawn.apart {l : HeldPeer} {srv' : WireGuardServer} {t t' : WgTable} (H : l.Drawn api srv env t t')
    (hbase : srv'.subnetBase = srv.subnetBase) : l.Apart srv' := by
  intro id hlow hhigh hne heq
  rw [H.state] at heq
  exact hne (peerIp_injOn hbase hlow hhigh H.allocated.1 H.allocated.2 heq)

/-- A granted peer stands. -/
theorem allocatePeer_stands (hstart : 1 ≤ startId) (hrange : startId ≤ endId) (hend : endId ≤ 253)
    (hfits : ∀ {id r}, s.table.get? id = some r → 0 ≤ id ∧ id < 65536)
    (hnew : ∀ {k st}, s.peers k = some st → ¬st.HasKey (api.x25519 env.secret))
    (h : allocatePeer api srv s startId endId expiresAt env = (.ok allocation, s')) :
    ∃ l : HeldPeer, l.Stands s' ∧ l.Drawn api srv env s.table s'.table ∧ l.row.expiresAt = expiresAt ∧
      allocation = ⟨clientConfig srv (Wrap.asU16 l.id) l.state, l.id, expiresAt⟩ := by
  simp only [allocatePeer] at h
  split at h
  · cases h
  · next lease table hregister =>
    obtain ⟨t₀, ht₀, hselect, -, htable⟩ := registerWireguardLease_ok hregister
    obtain ⟨hfree, hlow, hhigh⟩ := selectAvailableId_eq_some hrange hselect
    split at h
    · cases h
    · next cfg s₁ hadd =>
      have hs₁ := addPeer_added hadd
      have hcfg := addPeer_config hadd
      split at h
      · cases h
      · next t₂ hstore =>
        obtain ⟨rfl, rfl⟩ : PeerAllocation.mk cfg lease.peerId expiresAt = allocation ∧ { s₁ with table := t₂ } = s' := by
          simpa using h
        rcases storePeerKeys_cases hstore with ⟨pub, hpub, -, -, rfl⟩ | ⟨e, he, -⟩
        · have hpub : pub = encodeKey (api.x25519 env.secret) := by
            rw [hcfg] at hpub
            exact (Except.ok.inj ((publicKeyFromPrivate_encodeKey api env.secret).symm.trans hpub)).symm
          have hrow : s₁.table.get? lease.peerId =
              some ⟨lease.peerId, expiresAt, env.nowStr, none, none, none, none⟩ := by
            rw [hs₁, htable]
            exact (get?_insertLease_of_free hfree).trans (if_pos rfl)
          let l : HeldPeer :=
            { id := lease.peerId
              row := ⟨lease.peerId, expiresAt, env.nowStr, some cfg.clientPrivateKey, some pub, some cfg.presharedKey,
                some cfg.clientAddress⟩
              state := newPeerState api srv (Wrap.asU16 lease.peerId) env.secret env.psk
              key := api.x25519 env.secret
              peer := ⟨some env.psk, [allowedIpText srv (Wrap.asU16 lease.peerId)], some 25⟩ }
          let stored := updatePeerKeys s₁.table lease.peerId cfg.clientPrivateKey pub cfg.presharedKey cfg.clientAddress
          have hstored : stored.get? l.id = some l.row := by
            rw [get?_updatePeerKeys, hrow, Option.map_some, if_pos rfl]
          have hothers : ∀ {id r}, stored.get? id = some r → id = lease.peerId ∨ s.table.get? id = some r := by
            intro id r hr
            by_cases hid : id = lease.peerId
            · exact Or.inl hid
            · rw [get?_updatePeerKeys, hs₁, htable] at hr
              obtain ⟨r₀, hr₀, rfl⟩ := Option.map_eq_some_iff.mp hr
              have hkey := Table.get?_key hr₀
              rw [if_neg fun h => hid (hkey.symm.trans h)]
              rw [get?_insertLease_of_free hfree, if_neg hid] at hr₀
              rcases ht₀ with rfl | ⟨-, rfl⟩
              · exact Or.inr hr₀
              · exact Or.inr (get?_cleanup_eq_some.mp hr₀).1
          have hstands : l.Stands { s₁ with table := stored } := by
            refine ⟨hstored, ?_, ?_, ?_, fun {k st} hst hkey => ?_, fun {id r} hr => ?_⟩
            · rw [hs₁]
              exact Function.update_self ..
            · rw [hs₁]
              exact Interface.configure_self ..
            · rw [hs₁]
              exact Interface.routes_configure_self (List.mem_singleton_self _) (Or.inr rfl)
            · rw [hs₁] at hst
              rcases Function.update_some_cases hst with ⟨rfl, -⟩ | ⟨-, hst⟩
              · rfl
              · exact absurd hkey (hnew hst)
            · rcases hothers hr with rfl | hr
              · omega
              · exact hfits hr
          have hcarries : l.row.Carries l.state :=
            ⟨congrArg (fun cfg : PeerConfig => some cfg.clientPrivateKey) hcfg, congrArg some hpub,
              congrArg (fun cfg : PeerConfig => some cfg.presharedKey) hcfg,
              congrArg (fun cfg : PeerConfig => some cfg.clientAddress) hcfg⟩
          have hallocated : 1 ≤ lease.peerId ∧ lease.peerId ≤ 253 := ⟨hstart.trans hlow, hhigh.trans hend⟩
          refine ⟨l, hstands, ⟨hallocated, rfl, rfl, rfl, hcarries, hothers⟩, rfl, ?_⟩
          rw [hcfg]
        · cases he

end Peer

section Wireguard
variable {W : Worker} {srv : WireGuardServer} {s s' : Stores} {env : LeaseEnv} {format : String} {seconds : Int}
  {result : LeaseResult} {l : HeldPeer}

/-- The answer for a lease that stands. -/
def HeldPeer.answer (l : HeldPeer) (srv : WireGuardServer) (format : String) : LeaseResult :=
  peerResult (clientConfig srv (Wrap.asU16 l.id) l.state) format l.id l.row.expiresAt

@[simp] theorem peerResult_leaseRef (cfg : PeerConfig) (format : String) (id expiresAt : Int) :
    (peerResult cfg format id expiresAt).leaseRef = Decimal.display id := rfl

@[simp] theorem peerResult_leaseExpiresAt (cfg : PeerConfig) (format : String) (id expiresAt : Int) :
    (peerResult cfg format id expiresAt).leaseExpiresAt = expiresAt := rfl

theorem parseI32_display {id : Int} (h₁ : 0 ≤ id) (h₂ : id < 65536) : parseI32 (Decimal.display id) = some id :=
  Decimal.parseSigned_display (by omega) (by omega)

/-- A new lease that is granted stands. -/
theorem granted_stands (hmock : W.config.ciMockWgContainer = false)
    (hfits : ∀ {id r}, s.table.get? id = some r → 0 ≤ id ∧ id < 65536)
    (hnew : ∀ {k st}, s.peers k = some st → ¬st.HasKey (W.api.x25519 env.allocate.secret))
    (h : getWorkerConfig W s (freshRequest "wireguard" format seconds) env = (.ok result, s')) :
    ∃ l srv, W.wgServer = some srv ∧ HeldPeer.Stands l s'.toWgState ∧ l.Drawn W.api srv env.allocate s.table s'.table ∧
      result = l.answer srv format := by
  let range := PeerRange.ofConfig W.config
  simp only [getWorkerConfig, freshRequest, if_pos, allocateWireguard, hmock, Bool.false_eq_true, if_false] at h
  split at h
  · cases h
  · next srv hserver =>
    split at h
    · cases h
    · next allocation wg hallocate =>
      obtain ⟨l, hstands, hdrawn, hexp, hallocation⟩ := allocatePeer_stands (PeerRange.one_le_ofConfig W.config) range.start_le
        (PeerRange.ofConfig_le W.config) hfits hnew hallocate
      cases h
      refine ⟨l, srv, hserver, hstands, hdrawn, ?_⟩
      rw [hallocation, HeldPeer.answer, hexp]

/-- A lease that stands is renewed, and stands with the new expiry. -/
theorem HeldPeer.Stands.renew (W : Worker) (format : String) (seconds : Int) (H : l.Stands s.toWgState)
    (hserver : W.wgServer = some srv) (hupdate : env.update = .ok ()) (hlive : env.updateMs < l.row.expiresAt) :
    ∃ row s', row = { l.row with expiresAt := newExpiresAt env.nowMs seconds, updatedAt := env.nowStr } ∧
      HeldPeer.Stands { l with row } s'.toWgState ∧
      getWorkerConfig W s (renewal "wireguard" format seconds (l.answer srv format)) env =
        (.ok (HeldPeer.answer { l with row } srv format), s') := by
  have hid := parseI32_display H.inRange.1 H.inRange.2
  cases hext : extendWireguardLease s.table l.id l.row.expiresAt (newExpiresAt env.nowMs seconds) env.updateMs env.nowStr with
  | mk answer table =>
    cases answer with
    | error e =>
      obtain ⟨-, -, hnone⟩ := extendWireguardLease_error hext
      exact absurd ⟨rfl, hlive⟩ (hnone l.row H.row)
    | ok lease =>
      obtain ⟨r, hr, -, -, rfl, hget⟩ := extendWireguardLease_ok hext
      cases H.row.symm.trans hr
      refine ⟨_, { s with table }, rfl, ?_, ?_⟩
      · refine ⟨(hget l.id).trans (if_pos rfl), H.entry, H.key, H.route, H.owner, fun {id r} hr => ?_⟩
        rw [hget] at hr
        split at hr
        · next hid => exact hid ▸ H.inRange
        · exact H.fits hr
      · simp only [getWorkerConfig, renewal, HeldPeer.answer, peerResult_leaseRef, peerResult_leaseExpiresAt, if_pos,
          extendWireguard, hid, hupdate, hext, hserver, getClientConfig, H.entry]

end Wireguard

/-- The answers have the same configuration and the same reference. -/
def LeaseResult.SameConfig (first result : LeaseResult) : Prop :=
  result.configText = first.configText ∧ result.configJson = first.configJson ∧ result.leaseRef = first.leaseRef

theorem LeaseResult.SameConfig.trans {first result result' : LeaseResult} (h : first.SameConfig result)
    (h' : result.SameConfig result') : first.SameConfig result' :=
  ⟨h'.1.trans h.1, h'.2.1.trans h.2.1, h'.2.2.trans h.2.2⟩

/-- The two references name the same peer. -/
def SamePeer (ref ref' : String) : Prop := parseI32 ref = parseI32 ref'

/-- No key that the step draws is this one. -/
def TenancyAct.DrawsOthers (R : Registrar) (key : Key) : TenancyAct → Prop
  | .background a => ∀ env ∈ a.leases, R.api.x25519 env.allocate.secret ≠ key
  | .renew .. => True

theorem BackgroundAct.readings_of_requests {a : BackgroundAct} {req : LeaseRequest} {env : LeaseEnv} (h : a.Requests req env)
    {now : Int} (hnow : now ∈ env.readings) : now ∈ a.readings := by
  rcases h with rfl | ⟨henv, -⟩
  · exact hnow
  · cases a with
    | request req' env' =>
      rw [BackgroundAct.leases, List.mem_singleton] at henv
      exact henv ▸ hnow
    | attempt env' => exact List.mem_flatMap.mpr ⟨env, henv, hnow⟩
    | daemon env' => exact List.mem_append_right _ (List.mem_flatMap.mpr ⟨env, henv, hnow⟩)

theorem BackgroundAct.mem_leases_of_requests {a : BackgroundAct} {req : LeaseRequest} {env : LeaseEnv} (h : a.Requests req env) :
    env ∈ a.leases := by
  rcases h with rfl | ⟨henv, -⟩
  · exact List.mem_singleton_self env
  · exact henv

section WireguardRuns
variable {R : Registrar} {srv : WireGuardServer} {format : String} {s t : Tenancy} {l : HeldPeer}

/-- A background operation leaves the lease alone. -/
theorem HeldPeer.Stands.background {a : BackgroundAct} {node : Background} (H : l.Stands s.node.toWgState)
    (hanswer : s.result = l.answer srv format) (htime : s.InTime "wireguard" SamePeer (.background a))
    (hdraws : TenancyAct.DrawsOthers R l.key (.background a)) (hapart : ∀ srv, R.wgServer = some srv → l.Apart srv)
    (h : s.node.step R a = some node) : l.Stands node.toWgState := by
  obtain ⟨hreadings, hothers⟩ := htime
  rw [hanswer] at hreadings hothers
  have hlive : ∀ now ∈ a.readings, now ≤ l.row.expiresAt := fun now hnow => (hreadings now hnow).le
  refine Background.keeps_step (P := fun stores => l.Stands stores.toWgState) (fun req env stores hreq H => ?_)
    (fun env stores ha H => ?_) H h
  · refine H.request (fun now hnow => hlive now (BackgroundAct.readings_of_requests hreq hnow))
      (hdraws env (BackgroundAct.mem_leases_of_requests hreq)) hapart fun ref htype href heq => ?_
    rcases hreq with rfl | ⟨-, hnone⟩
    · exact hothers req env ref rfl htype href (heq.trans (parseI32_display H.inRange.1 H.inRange.2).symm)
    · cases hnone.symm.trans href
  · subst ha
    exact H.cleanup (hlive _ (by simp [BackgroundAct.readings])) (hlive _ (by simp [BackgroundAct.readings]))

/-- The client has a peer that stands, by the last answer. -/
def Tenancy.OfPeer (srv : WireGuardServer) (format : String) (l : HeldPeer) (t : Tenancy) : Prop :=
  ∃ row, HeldPeer.Stands { l with row } t.node.toWgState ∧ t.result = HeldPeer.answer { l with row } srv format

/-- A step leaves the peer to the client. -/
theorem Tenancy.OfPeer.step {a : TenancyAct} (hserver : R.wgServer = some srv) (hapart : l.Apart srv)
    (H : s.OfPeer srv format l) (htime : s.InTime "wireguard" SamePeer a) (hdraws : a.DrawsOthers R l.key)
    (h : s.step R "wireguard" format a = some t) : t.OfPeer srv format l := by
  obtain ⟨row, H, hanswer⟩ := H
  cases a with
  | background a =>
    obtain ⟨node, hnode, rfl⟩ := Option.map_eq_some_iff.mp h
    have hapart : ∀ srv', R.wgServer = some srv' → HeldPeer.Apart { l with row } srv' := by
      intro srv' hserver'
      cases hserver.symm.trans hserver'
      exact hapart
    exact ⟨row, H.background hanswer htime hdraws hapart hnode, hanswer⟩
  | renew seconds env =>
    obtain ⟨hupdate, -, hlive⟩ := htime
    rw [hanswer] at hlive
    obtain ⟨row', s', -, hstands, hrenew⟩ := H.renew R.worker format seconds hserver hupdate
      hlive
    simp only [Tenancy.step, hanswer, hrenew, Option.some.injEq] at h
    subst h
    exact ⟨row', hstands, rfl⟩

/-- The answers to the client have one configuration. -/
theorem Tenancy.OfPeer.sameConfig (H : s.OfPeer srv format l) (H' : t.OfPeer srv format l) : s.result.SameConfig t.result := by
  obtain ⟨row, -, hanswer⟩ := H
  obtain ⟨row', -, hanswer'⟩ := H'
  rw [hanswer, hanswer']
  exact ⟨rfl, rfl, rfl⟩

/-- A renewal in time is granted, with the same configuration. -/
theorem Tenancy.OfPeer.renews {env : LeaseEnv} (H : t.OfPeer srv format l) (hserver : R.wgServer = some srv) (seconds : Int)
    (hupdate : env.update = .ok ()) (hlive : env.updateMs < t.result.leaseExpiresAt) :
    ∃ result stores, getWorkerConfig R.worker t.node.toStores (renewal "wireguard" format seconds t.result) env = (.ok result, stores) ∧
      t.result.SameConfig result ∧ result.leaseExpiresAt = newExpiresAt env.nowMs seconds := by
  obtain ⟨row, H, hanswer⟩ := H
  rw [hanswer] at hlive ⊢
  obtain ⟨_, s', rfl, -, hrenew⟩ := H.renew R.worker format seconds hserver hupdate hlive
  exact ⟨_, s', hrenew, ⟨rfl, rfl, rfl⟩, rfl⟩

/-- A WireGuard lease can be renewed as long as it has not expired, whatever operations the worker has completed in between,
    and every answer has the configuration of the first one. -/
theorem wireguard_lease_renewable {s₀ : Background} {stores : Stores} {seconds₀ : Int} {env₀ : LeaseEnv} {first : LeaseResult}
    (hmock : R.config.ciMockWgContainer = false) (hfits : ∀ {id r}, s₀.table.get? id = some r → 0 ≤ id ∧ id < 65536)
    (hnew : ∀ {k st}, s₀.peers k = some st → ¬st.HasKey (R.api.x25519 env₀.allocate.secret))
    (hgrant : getWorkerConfig R.worker s₀.toStores (freshRequest "wireguard" format seconds₀) env₀ = (.ok first, stores))
    (hr : Reach (Tenancy.step R "wireguard" format)
      (fun s a => s.InTime "wireguard" SamePeer a ∧ a.DrawsOthers R (R.api.x25519 env₀.allocate.secret))
      ⟨{ s₀ with toStores := stores }, first⟩ t) :
    first.SameConfig t.result ∧ ∀ seconds env, env.update = .ok () → env.updateMs < t.result.leaseExpiresAt →
      ∃ result stores', getWorkerConfig R.worker t.node.toStores (renewal "wireguard" format seconds t.result) env =
          (.ok result, stores') ∧ first.SameConfig result ∧ result.leaseExpiresAt = newExpiresAt env.nowMs seconds := by
  obtain ⟨l, srv, hserver, hstands, hdrawn, hfirst⟩ := granted_stands hmock hfits hnew hgrant
  have hstart : Tenancy.OfPeer srv format l ⟨{ s₀ with toStores := stores }, first⟩ := ⟨l.row, hstands, hfirst⟩
  have hkept : t.OfPeer srv format l :=
    hr.inv hstart fun s a u H hok h => H.step hserver (hdrawn.apart rfl) hok.1 (hdrawn.key ▸ hok.2) h
  have hsame : first.SameConfig t.result := hstart.sameConfig hkept
  refine ⟨hsame, fun seconds env hupdate hlive => ?_⟩
  obtain ⟨result, stores', hrenew, hresult, hexp⟩ := hkept.renews hserver seconds hupdate hlive
  exact ⟨result, stores', hrenew, hsame.trans hresult, hexp⟩

end WireguardRuns

/-- A request for a new lease extends no other. -/
theorem Tenancy.inTime_fresh {s : Tenancy} {leaseType : String} {Same : String → String → Prop} {req : LeaseRequest}
    {env : LeaseEnv} (hreq : req.extendRef = none) (hlive : ∀ now ∈ env.readings, now < s.result.leaseExpiresAt) :
    s.InTime leaseType Same (.background (.request req env)) := by
  refine ⟨hlive, fun req' env' ref h _ href => ?_⟩
  cases h
  cases hreq.symm.trans href

/-- A granted answer, by its expiry. -/
theorem exists_granted {W : Worker} {s : Stores} {req : LeaseRequest} {env : LeaseEnv} {expiresAt : Int}
    (h : (getWorkerConfig W s req env).1.map (·.leaseExpiresAt) = .ok expiresAt) :
    ∃ result stores, getWorkerConfig W s req env = (.ok result, stores) ∧ result.leaseExpiresAt = expiresAt := by
  cases hrequest : getWorkerConfig W s req env with
  | mk answer stores =>
    rw [hrequest] at h
    cases answer with
    | error e => cases h
    | ok result => exact ⟨result, stores, rfl, Except.ok.inj h⟩

/-- A client renews its lease after another client has got the second peer. -/
theorem renewable_after_another_lease : ∃ first stores result stores',
    getWorkerConfig (Registrar.sample 2).worker Background.fresh.toStores (freshRequest "wireguard" "json" 60) (.sample 0 1) =
      (.ok first, stores) ∧
    getWorkerConfig (Registrar.sample 2).worker
      (getWorkerConfig (Registrar.sample 2).worker stores (freshRequest "wireguard" "json" 60) (.sample 100 2)).2
      (renewal "wireguard" "json" 90 first) (.sample 1000 3) = (.ok result, stores') ∧
    first.SameConfig result ∧ result.leaseExpiresAt = 91000 := by
  let R := Registrar.sample 2
  let other := freshRequest "wireguard" "json" 60
  have hgrant : (getWorkerConfig R.worker Background.fresh.toStores other (.sample 0 1)).1.map (·.leaseExpiresAt) = .ok 60000 := by
    decide +kernel
  obtain ⟨first, stores, hfirst, hexp⟩ := exists_granted hgrant
  have hlive : ∀ now ∈ (LeaseEnv.sample 100 2).readings, now < first.leaseExpiresAt := by
    rw [hexp]
    decide
  have hdraws : ∀ env ∈ [LeaseEnv.sample 100 2], R.api.x25519 env.allocate.secret ≠ R.api.x25519 (.replicate 1) := by
    decide +kernel
  obtain ⟨-, hrenewable⟩ := wireguard_lease_renewable (R := R) rfl (fun h => by cases h) (fun h => by cases h) hfirst
    (.single (.background (.request other (.sample 100 2))) ⟨Tenancy.inTime_fresh rfl hlive, hdraws⟩ rfl)
  have hnow : (1000 : Int) < first.leaseExpiresAt := by
    rw [hexp]
    decide
  obtain ⟨result, stores', hresult, hsame, hexpires⟩ := hrenewable 90 (.sample 1000 3) rfl hnow
  exact ⟨first, stores, result, stores', hfirst, hresult, hsame, hexpires⟩

/-! ### SOCKS5 -/

section Socks5
variable {R : Registrar} {W : Worker} {s s' : Stores} {env : LeaseEnv} {format : String} {seconds : Int} {result : LeaseResult}
  {slot : Socks5Config} {t : Tenancy}

/-- The answer for a slot that is held. -/
def Socks5Config.answer (slot : Socks5Config) (format : String) : LeaseResult :=
  socks5Result slot format slot.username slot.expiresAt

@[simp] theorem socks5Result_leaseRef (sock : Socks5Config) (format leaseRef : String) (expiresAt : Int) :
    (socks5Result sock format leaseRef expiresAt).leaseRef = leaseRef := rfl

@[simp] theorem socks5Result_leaseExpiresAt (sock : Socks5Config) (format leaseRef : String) (expiresAt : Int) :
    (socks5Result sock format leaseRef expiresAt).leaseExpiresAt = expiresAt := rfl

/-- A slot that was marked is held with the new expiry. -/
theorem held_markUnavailable {table : Socks5Table} {expiresAt nowMs : Int} (h : slot ∈ table.rows) :
    HeldSlot { slot with available := false, expiresAt := expiresAt, updated := nowMs }
      (markUnavailable table slot expiresAt nowMs) where
  row := by
    have hread : readSocks5ConfigByUsername (markUnavailable table slot expiresAt nowMs) slot.username = _ :=
      Socks5Table.leasesOnly_markUnavailable h slot.username
    rwa [if_pos rfl] at hread
  taken := rfl

/-- A new slot that is granted is held, and its password is the one that was stored. -/
theorem granted_held (h : getWorkerConfig W s (freshRequest "socks5" format seconds) env = (.ok result, s')) :
    ∃ slot, HeldSlot slot s'.socks ∧ result = slot.answer format ∧ loadFromDb s.socks slot.username = some slot.password := by
  have hrequest : getWorkerConfig W s (freshRequest "socks5" format seconds) env =
      allocateSocks5 W s (freshRequest "socks5" format seconds) env := rfl
  rw [hrequest, allocateSocks5_eq rfl] at h
  dsimp only at h
  split at h
  · cases h
  · next config hrank =>
    cases h
    obtain ⟨hrow, -⟩ := Socks5Table.mem_of_mem_freeRows (List.mem_of_getElem? hrank)
    refine ⟨_, held_markUnavailable hrow, rfl, ?_⟩
    have hload : loadFromDb (s.socks.reclaimed W.config.prioritySlots.toNat env.cleanupMs) = loadFromDb s.socks := by
      unfold Socks5Table.reclaimed
      split
      · rfl
      · exact loadFromDb_updateWhere fun _ => rfl
    rw [← hload, loadFromDb_apply, Socks5Table.read_eq_some_iff.mpr ⟨hrow, rfl⟩]
    rfl

/-- The slot with a later expiry. -/
def Socks5Config.prolonged (slot : Socks5Config) (expiresAt updated : Int) : Socks5Config :=
  { slot with expiresAt := expiresAt, updated := updated }

/-- A slot that is held is renewed, and is held with the new expiry. -/
theorem HeldSlot.renew (W : Worker) (format : String) (seconds : Int) (H : HeldSlot slot s.socks)
    (hupdate : env.update = .ok ()) (hread : env.read = .ok ()) (hlive : env.updateMs < slot.expiresAt) :
    ∃ s', HeldSlot (slot.prolonged (newExpiresAt env.nowMs seconds) env.updateMs) s'.socks ∧
      getWorkerConfig W s (renewal "socks5" format seconds (slot.answer format)) env =
        (.ok ((slot.prolonged (newExpiresAt env.nowMs seconds) env.updateMs).answer format), s') := by
  have hrequest : getWorkerConfig W s (renewal "socks5" format seconds (slot.answer format)) env =
      extendSocks5 s (renewal "socks5" format seconds (slot.answer format)) slot.username slot.expiresAt env := rfl
  let table := s.socks.updateWhere (socks5ExtensionMatches slot.username slot.expiresAt env.updateMs)
    (extendedTo (newExpiresAt env.nowMs seconds) env.updateMs)
  refine ⟨⟨s.toWgState, table⟩, ?_⟩
  have hmatch : socks5ExtensionMatches slot.username slot.expiresAt env.updateMs slot = true := by
    simp [socks5ExtensionMatches, hlive]
  have hrow := Socks5Table.read_updateWhere_of (p := socks5ExtensionMatches slot.username slot.expiresAt env.updateMs)
    (u := extendedTo (newExpiresAt env.nowMs seconds) env.updateMs) H.row
  rw [if_pos hmatch] at hrow
  refine ⟨⟨hrow, H.taken⟩, ?_⟩
  rw [hrequest]
  simp only [extendSocks5, hupdate, hread]
  cases hext : extendSocks5Lease s.socks slot.username slot.expiresAt
      (newExpiresAt env.nowMs (renewal "socks5" format seconds (slot.answer format)).leaseSeconds) env.updateMs with
  | mk answer socks =>
    cases answer with
    | error e => exact absurd ⟨rfl, hlive⟩ (extendSocks5Lease_refused hext H.row)
    | ok lease =>
      obtain ⟨r, -, -, -, rfl, rfl⟩ := extendSocks5Lease_ok hext
      have hrow' : readSocks5ConfigByUsername (s.socks.updateWhere
          (socks5ExtensionMatches slot.username slot.expiresAt env.updateMs)
          (extendedTo (newExpiresAt env.nowMs (renewal "socks5" format seconds (slot.answer format)).leaseSeconds)
            env.updateMs)) slot.username = _ := hrow
      simp only [hrow']
      rfl

/-- A slot and its password in memory. -/
structure HeldAccess (slot : Socks5Config) (node : Background) : Prop where
  held : HeldSlot slot node.socks
  password : node.credentials slot.username = some slot.password

/-- A background operation leaves the slot and its password alone. -/
theorem HeldAccess.background {a : BackgroundAct} {node node' : Background} (H : HeldAccess slot node)
    (hlive : ∀ now ∈ a.readings, now < slot.expiresAt)
    (hothers : ∀ req env ref, a = .request req env → req.leaseType = "socks5" → req.extendRef = some ref → ref ≠ slot.username)
    (h : node.step R a = some node') : HeldAccess slot node' where
  held := by
    refine Background.keeps_step (P := fun stores => HeldSlot slot stores.socks) (fun req env stores hreq H => ?_)
      (fun env stores ha H => H) H.held h
    refine H.request (fun now hnow => hlive now (BackgroundAct.readings_of_requests hreq hnow)) fun ref htype href => ?_
    rcases hreq with rfl | ⟨-, hnone⟩
    · exact hothers req env ref rfl htype href
    · cases hnone.symm.trans href
  password := by
    rcases Background.credentials_step h with heq | heq
    · rw [heq]
      exact H.password
    · rw [heq, loadFromDb_apply, H.held.row]
      rfl

/-- The client holds the slot, by the last answer. -/
def Tenancy.OfSlot (format : String) (slot : Socks5Config) (t : Tenancy) : Prop :=
  ∃ expiresAt updated, HeldAccess (slot.prolonged expiresAt updated) t.node ∧
    t.result = (slot.prolonged expiresAt updated).answer format

/-- A step leaves the slot to the client. -/
theorem Tenancy.OfSlot.step {a : TenancyAct} {u : Tenancy} (H : t.OfSlot format slot) (htime : t.InTime "socks5" Eq a)
    (h : t.step R "socks5" format a = some u) : u.OfSlot format slot := by
  obtain ⟨expiresAt, updated, H, hanswer⟩ := H
  cases a with
  | background a =>
    obtain ⟨node, hnode, rfl⟩ := Option.map_eq_some_iff.mp h
    obtain ⟨hreadings, hothers⟩ := htime
    rw [hanswer] at hreadings hothers
    exact ⟨expiresAt, updated, H.background hreadings hothers hnode, hanswer⟩
  | renew seconds env =>
    obtain ⟨hupdate, hread, hlive⟩ := htime
    rw [hanswer] at hlive
    obtain ⟨s', hheld, hrenew⟩ := H.held.renew R.worker format seconds hupdate hread hlive
    simp only [Tenancy.step, hanswer, hrenew, Option.some.injEq] at h
    subst h
    exact ⟨_, _, ⟨hheld, H.password⟩, rfl⟩

/-- A renewal in time is granted, with the same configuration. -/
theorem Tenancy.OfSlot.renews (H : t.OfSlot format slot) (seconds : Int) (hupdate : env.update = .ok ())
    (hread : env.read = .ok ()) (hlive : env.updateMs < t.result.leaseExpiresAt) :
    ∃ result stores, getWorkerConfig R.worker t.node.toStores (renewal "socks5" format seconds t.result) env = (.ok result, stores) ∧
      t.result.SameConfig result ∧ result.leaseExpiresAt = newExpiresAt env.nowMs seconds := by
  obtain ⟨expiresAt, updated, H, hanswer⟩ := H
  rw [hanswer] at hlive ⊢
  obtain ⟨s', -, hrenew⟩ := H.held.renew R.worker format seconds hupdate hread hlive
  exact ⟨_, s', hrenew, ⟨rfl, rfl, rfl⟩, rfl⟩

/-- An exclusive SOCKS5 lease can be renewed as long as it has not expired, whatever operations the worker has completed in
    between; every answer has the configuration of the first one, and its username and password are accepted in every state
    between two operations. -/
theorem socks5_lease_renewable {s₀ : Background} {stores : Stores} {seconds₀ : Int} {env₀ : LeaseEnv} {first : LeaseResult}
    (hloaded : s₀.credentials = loadFromDb s₀.socks)
    (hgrant : getWorkerConfig R.worker s₀.toStores (freshRequest "socks5" format seconds₀) env₀ = (.ok first, stores))
    (hr : Reach (Tenancy.step R "socks5" format) (Tenancy.InTime "socks5" Eq) ⟨{ s₀ with toStores := stores }, first⟩ t) :
    ∃ slot : Socks5Config, first.SameConfig (slot.answer format) ∧ t.result = slot.answer format ∧
      authenticate t.node.credentials slot.username slot.password = true ∧
      ∀ seconds env, env.update = .ok () → env.read = .ok () → env.updateMs < t.result.leaseExpiresAt →
        ∃ result stores', getWorkerConfig R.worker t.node.toStores (renewal "socks5" format seconds t.result) env =
            (.ok result, stores') ∧ first.SameConfig result ∧ result.leaseExpiresAt = newExpiresAt env.nowMs seconds := by
  obtain ⟨slot, hheld, hfirst, hpassword⟩ := granted_held hgrant
  have hsame : ∀ expiresAt updated, first.SameConfig ((slot.prolonged expiresAt updated).answer format) := fun _ _ => by
    rw [hfirst]
    exact ⟨rfl, rfl, rfl⟩
  have hstart : Tenancy.OfSlot format slot ⟨{ s₀ with toStores := stores }, first⟩ :=
    ⟨slot.expiresAt, slot.updated, ⟨hheld, hloaded ▸ hpassword⟩, hfirst⟩
  have hkept : t.OfSlot format slot := hr.inv hstart fun s a u H htime h => H.step htime h
  obtain ⟨expiresAt, updated, H, hanswer⟩ := id hkept
  refine ⟨_, hsame expiresAt updated, hanswer, authenticate_iff.mpr H.password, fun seconds env hupdate hread hlive => ?_⟩
  obtain ⟨result, stores', hrenew, hresult, hexp⟩ := hkept.renews seconds hupdate hread hlive
  rw [hanswer] at hresult
  exact ⟨result, stores', hrenew, (hsame expiresAt updated).trans hresult, hexp⟩

end Socks5

/-- A client renews its lease after another client has got the second slot. -/
theorem socks5_renewable_after_another_lease : ∃ first stores result stores',
    getWorkerConfig (Registrar.sample 2).worker Background.fresh.toStores (freshRequest "socks5" "json" 60) (.sample 0 1) =
      (.ok first, stores) ∧
    getWorkerConfig (Registrar.sample 2).worker
      (getWorkerConfig (Registrar.sample 2).worker stores (freshRequest "socks5" "json" 60) (.sample 100 2)).2
      (renewal "socks5" "json" 90 first) (.sample 1000 3) = (.ok result, stores') ∧
    first.SameConfig result ∧ result.leaseExpiresAt = 91000 := by
  let R := Registrar.sample 2
  let other := freshRequest "socks5" "json" 60
  have hgrant : (getWorkerConfig R.worker Background.fresh.toStores other (.sample 0 1)).1.map (·.leaseExpiresAt) = .ok 60000 := by
    decide +kernel
  obtain ⟨first, stores, hfirst, hexp⟩ := exists_granted hgrant
  have hlive : ∀ now ∈ (LeaseEnv.sample 100 2).readings, now < first.leaseExpiresAt := by
    rw [hexp]
    decide
  obtain ⟨slot, -, -, -, hrenewable⟩ := socks5_lease_renewable (R := R) rfl hfirst
    (.single (.background (.request other (.sample 100 2))) (Tenancy.inTime_fresh rfl hlive) rfl)
  have hnow : (1000 : Int) < first.leaseExpiresAt := by
    rw [hexp]
    decide
  obtain ⟨result, stores', hresult, hsame, hexpires⟩ := hrenewable 90 (.sample 1000 3) rfl rfl hnow
  exact ⟨first, stores, result, stores', hfirst, hresult, hsame, hexpires⟩

end TpnWorker
