import TpnWorker.Concurrent.Restarts
import TpnWorker.Concurrent.Traces

/-! Tunnel addresses over restarts. A peer's address is the base of the subnet that was configured when the
    peer was added, plus its id and one. A restored peer keeps that address, whatever the subnet is now, so
    the addresses of two subnets can meet, and nothing bounds the last octet of a base. -/

namespace TpnWorker
open Keyed Transition

/-! ### The condition on the steps -/

/-- A start under `base` has room for the ids of these rows, and an address that a row keeps from another
    subnet is neither the server's nor stored in a second row. -/
def RestoreSafe (base : Ipv4Addr) (rows : List WgRow) : Prop :=
  ∀ r ∈ rows, base.d.toNat + (Wrap.asU16 r.id + 1) ≤ 254 ∧
    ∀ ip ∈ r.address?, ¬base.HostAt (Wrap.asU16 r.id + 1) ip →
      ¬base.HostAt 1 ip ∧ ∀ r' ∈ rows, Wrap.asU16 r'.id ≠ Wrap.asU16 r.id → r'.address? ≠ some ip

instance (base : Ipv4Addr) (rows : List WgRow) : Decidable (RestoreSafe base rows) :=
  inferInstanceAs (Decidable (∀ r ∈ rows, _ ∧ ∀ ip ∈ r.address?, ¬_ → ¬_ ∧ ∀ r' ∈ rows, _ → _))

/-- The subnet has room for a new peer's id, and no entry has the new peer's address from another subnet. -/
def Deployment.AddressSafe (D : Deployment) (s : Sys) : Act → Prop
  | .call c (.configure ..) => ∀ id ∈ s.peerId? c, D.srv.subnetBase.d.toNat + (Wrap.asU16 id + 1) ≤ 254
  | .call c .mapInsert => ∀ id ∈ s.peerId? c, ∀ k st, s.peers k = some st →
      ¬D.srv.subnetBase.HostAt (k + 1) st.allowedIp → ¬D.srv.subnetBase.HostAt (Wrap.asU16 id + 1) st.allowedIp
  | _ => True

def Host.AddressSafe (api : WgApi) (h : Host) : HostAct → Prop
  | .act a => ∀ D ∈ h.deployment, D.AddressSafe h.sys a
  | .restart env => ∀ srv keys, WireGuardServer.new api env.config h.keys env.secret = (.ok srv, keys) →
      env.start = .ok () →
        srv.subnetBase.d.toNat + 1 ≤ 254 ∧ RestoreSafe srv.subnetBase (env.computed api srv h.sys.table)

/-- No sum leaves the host addresses of its subnet; the server and every entry of the map have such an address,
    no two the same. -/
structure Addressed (h : Host) (D : Deployment) : Prop where
  sum : ∀ p ∈ h.sums, p.1.d.toNat + p.2 ≤ 254
  server : ∃ ip, serverAddress D.srv = ip.display ∧ D.srv.subnetBase.HostAt 1 ip
  peer : ∀ {k st}, h.sys.peers k = some st → ∃ base, (base, k + 1) ∈ h.sums ∧ base.HostAt (k + 1) st.allowedIp
  apart : ∀ {k k' st st'}, h.sys.peers k = some st → h.sys.peers k' = some st' → k ≠ k' →
    st.allowedIp ≠ st'.allowedIp
  not_server : ∀ {k st}, h.sys.peers k = some st → st.allowedIp.display ≠ serverAddress D.srv

/-! ### The invariant -/

/-- The address was computed for peer `k`. -/
def AddressOf (sums : List (Ipv4Addr × ℕ)) (k : ℕ) (ip : Ipv4Addr) : Prop :=
  1 ≤ k ∧ ∃ base, (base, k + 1) ∈ sums ∧ base.HostAt (k + 1) ip

/-- A row with keys has an address, and its address was computed for its id. -/
structure RowAddressed (sums : List (Ipv4Addr × ℕ)) (id : Int) (r : WgRow) : Prop where
  keyed : r.privateKey.isSome → r.allowedIp.isSome
  address : ∀ text, r.allowedIp = some text →
    (Wrap.asU16 id : Int) = id ∧ ∃ ip, text = ip.display ∧ AddressOf sums (Wrap.asU16 id) ip

structure Running (sums : List (Ipv4Addr × ℕ)) (D : Deployment) (s : Sys) : Prop where
  range : D.range = .ofConfig D.config
  server : (D.srv.subnetBase, 1) ∈ sums
  selected : ∀ {c id}, s.selected? c = some id → D.range.Mem id
  drawn : ∀ {c id st}, s.peerId? c = some id → s.state? c = some st → D.range.Mem id ∧
    (D.srv.subnetBase, Wrap.asU16 id + 1) ∈ sums ∧ st.allowedIp = peerIp D.srv (Wrap.asU16 id)
  peer : ∀ {k st}, s.peers k = some st → AddressOf sums k st.allowedIp
  apart : ∀ {k k' st st'}, s.peers k = some st → s.peers k' = some st' → k ≠ k' → st.allowedIp ≠ st'.allowedIp
  not_server : ∀ {k st}, s.peers k = some st → ¬D.srv.subnetBase.HostAt 1 st.allowedIp

structure Host.Inv (h : Host) : Prop where
  sum : ∀ p ∈ h.sums, p.1.d.toNat + p.2 ≤ 254
  row : ∀ {id r}, h.sys.table.get? id = some r → RowAddressed h.sums id r
  running : ∀ D ∈ h.deployment, Running h.sums D h.sys

theorem PeerRange.natCast_asU16 {range : PeerRange} {id : Int} (h : range.Mem id) : (Wrap.asU16 id : Int) = id := by
  have hstart := range.start_nonneg
  have hend := range.end_le
  obtain ⟨h₁, h₂⟩ := h
  exact Wrap.natCast_asU16 (by omega) (by omega)

theorem Running.asU16_mem {sums : List (Ipv4Addr × ℕ)} {D : Deployment} {s : Sys} {id : Int} (R : Running sums D s)
    (h : D.range.Mem id) : 1 ≤ Wrap.asU16 id ∧ Wrap.asU16 id ≤ 253 := by
  have hcast := PeerRange.natCast_asU16 h
  have hend : D.range.endId = D.config.effectivePeerCount := congrArg PeerRange.endId R.range
  have hstart : D.range.startId = 1 := congrArg PeerRange.startId R.range
  have hcount := D.config.effectivePeerCount_le
  obtain ⟨h₁, h₂⟩ := h
  omega

section Sums
variable {sums sums' : List (Ipv4Addr × ℕ)}

theorem AddressOf.mono {k : ℕ} {ip : Ipv4Addr} (h : AddressOf sums k ip) (hsub : sums ⊆ sums') : AddressOf sums' k ip := by
  obtain ⟨hk, base, hmem, hhost⟩ := h
  exact ⟨hk, base, hsub hmem, hhost⟩

theorem RowAddressed.mono {id : Int} {r : WgRow} (h : RowAddressed sums id r) (hsub : sums ⊆ sums') :
    RowAddressed sums' id r where
  keyed := h.keyed
  address text htext := by
    obtain ⟨hid, ip, hip, haddr⟩ := h.address text htext
    exact ⟨hid, ip, hip, haddr.mono hsub⟩

theorem RowAddressed.of_keys {id : Int} {r r₀ : WgRow} (h : RowAddressed sums id r₀)
    (hkey : r₀.privateKey = r.privateKey) (hip : r₀.allowedIp = r.allowedIp) : RowAddressed sums id r where
  keyed := hkey ▸ hip ▸ h.keyed
  address := hip ▸ h.address

theorem RowAddressed.stored {id : Int} {r : WgRow} (h : RowAddressed sums id r) (hkey : r.privateKey.isSome) :
    (Wrap.asU16 id : Int) = id ∧ ∃ ip, r.address? = some ip ∧ AddressOf sums (Wrap.asU16 id) ip := by
  obtain ⟨text, htext⟩ := Option.isSome_iff_exists.mp (h.keyed hkey)
  obtain ⟨hid, ip, rfl, haddr⟩ := h.address text htext
  exact ⟨hid, ip, by rw [WgRow.address?, htext, Option.bind_some, Ipv4Addr.parse_display], haddr⟩

end Sums

section Step
variable {sums sums' : List (Ipv4Addr × ℕ)} {D : Deployment} {s t : Sys} {a : Act}

theorem Deployment.sums_le (hsafe : D.AddressSafe s a) : ∀ p ∈ D.sums s a, p.1.d.toNat + p.2 ≤ 254 := by
  intro p hp
  unfold Deployment.sums at hp
  split at hp
  · next c secret psk kernel =>
    obtain ⟨id, hid, rfl⟩ := List.mem_map.mp hp
    exact hsafe id (Option.mem_toList.mp hid)
  · cases hp

theorem Draws.mem_sums {c : ℕ} {id : Int} {st : PeerState} (h : Draws D s a c id st) :
    (D.srv.subnetBase, Wrap.asU16 id + 1) ∈ D.sums s a := by
  obtain ⟨secret, psk, kernel, rfl, hid, -, -⟩ := h
  exact List.mem_map.mpr ⟨id, Option.mem_toList.mpr hid, rfl⟩

/-- The address that a call has drawn is one of its own subnet. -/
theorem Running.drawn_hostAt {c : ℕ} {id : Int} {st : PeerState} (R : Running sums D s)
    (hsum : ∀ p ∈ sums, p.1.d.toNat + p.2 ≤ 254) (hid : s.peerId? c = some id) (hst : s.state? c = some st) :
    D.srv.subnetBase.HostAt (Wrap.asU16 id + 1) st.allowedIp := by
  obtain ⟨-, hmem, hip⟩ := R.drawn hid hst
  rw [hip]
  exact hostAt_peerIp (hsum _ hmem)

theorem Running.drawn_addressOf {c : ℕ} {id : Int} {st : PeerState} (R : Running sums D s)
    (hsum : ∀ p ∈ sums, p.1.d.toNat + p.2 ≤ 254) (hid : s.peerId? c = some id) (hst : s.state? c = some st) :
    AddressOf sums (Wrap.asU16 id) st.allowedIp := by
  obtain ⟨hid', hmem, -⟩ := R.drawn hid hst
  exact ⟨(R.asU16_mem hid').1, _, hmem, R.drawn_hostAt hsum hid hst⟩

/-- A peer that enters the map meets no other entry: not one of its own subnet, whose id is another, and by
    the condition not one of an earlier subnet. -/
theorem Running.enters_apart {c k : ℕ} {id : Int} {st st' : PeerState} (R : Running sums D s)
    (hsum : ∀ p ∈ sums, p.1.d.toNat + p.2 ≤ 254) (hsafe : D.AddressSafe s (.call c .mapInsert))
    (hid : s.peerId? c = some id) (hst : s.state? c = some st) (hk : s.peers k = some st') (hne : k ≠ Wrap.asU16 id) :
    st'.allowedIp ≠ st.allowedIp := by
  intro heq
  have hnew := R.drawn_hostAt hsum hid hst
  rw [← heq] at hnew
  by_cases hown : D.srv.subnetBase.HostAt (k + 1) st'.allowedIp
  · exact hne (Nat.succ.inj (hown.offset_eq hnew))
  · exact hsafe id hid k st' hk hown hnew

theorem Running.step (R : Running sums D s) (hsum : ∀ p ∈ sums, p.1.d.toNat + p.2 ≤ 254) (hsub : sums ⊆ sums')
    (hnew : D.sums s a ⊆ sums') (hsafe : D.AddressSafe s a) (h : D.step s a = some t) : Running sums' D t := by
  have T : Traced D s a t := .step h
  refine ⟨R.range, hsub R.server, fun h => ?_, fun hid hst => ?_, fun hk => ?_, fun hk hk' hne => ?_, fun hk => ?_⟩
  · exact (T.selected h).elim R.selected fun hmem => hmem
  · rcases T.drawn hid hst with ⟨hid, hst⟩ | hdraws
    · obtain ⟨hid, hmem, hip⟩ := R.drawn hid hst
      exact ⟨hid, hsub hmem, hip⟩
    · have hmem := hnew hdraws.mem_sums
      obtain ⟨secret, psk, kernel, -, -, hsel, rfl⟩ := hdraws
      exact ⟨R.selected hsel, hmem, rfl⟩
  · rcases T.peer hk with hk | ⟨c, id, rfl, hid, hst, rfl⟩
    · exact (R.peer hk).mono hsub
    · exact (R.drawn_addressOf hsum hid hst).mono hsub
  · rcases T.peer hk with hk | ⟨c, id, rfl, hid, hst, rfl⟩
    · rcases T.peer hk' with hk' | ⟨c, id, rfl, hid, hst, rfl⟩
      · exact R.apart hk hk' hne
      · exact R.enters_apart hsum hsafe hid hst hk hne
    · rcases T.peer hk' with hk' | ⟨c', id', hcc, hid', hst', rfl⟩
      · exact (R.enters_apart hsum hsafe hid hst hk' hne.symm).symm
      · cases hcc
        cases hid.symm.trans hid'
        exact absurd rfl hne
  · rcases T.peer hk with hk | ⟨c, id, rfl, hid, hst, rfl⟩
    · exact R.not_server hk
    · intro hserver
      have hone := (R.asU16_mem (R.drawn hid hst).1).1
      have := hserver.offset_eq (R.drawn_hostAt hsum hid hst)
      omega

theorem Running.row (R : Running sums D s) (hsum : ∀ p ∈ sums, p.1.d.toNat + p.2 ≤ 254)
    (hrows : ∀ {id r}, s.table.get? id = some r → RowAddressed sums id r) (h : D.step s a = some t) {id : Int} {r : WgRow}
    (hr : t.table.get? id = some r) : RowAddressed sums id r := by
  rcases (Traced.step h).row with hkeeps | ⟨c, id', st, hid, hst, hstored⟩
  · rcases hkeeps id r hr with ⟨hkey, hip⟩ | ⟨r₀, hr₀, hkey, hip⟩
    · exact ⟨by simp [hkey], by simp [hip]⟩
    · exact (hrows hr₀).of_keys hkey hip
  · rcases hstored hr with ⟨rfl, hip⟩ | hr₀
    · refine ⟨fun _ => by simp [hip], fun text htext => ?_⟩
      cases hip.symm.trans htext
      exact ⟨PeerRange.natCast_asU16 (R.drawn hid hst).1, _, rfl, R.drawn_addressOf hsum hid hst⟩
    · exact hrows hr₀

end Step

section Start
variable {api : WgApi} {srv : WireGuardServer} {env : StartEnv} {table : WgTable} {sums sums' : List (Ipv4Addr × ℕ)}

theorem StartEnv.sums_le (hbase : srv.subnetBase.d.toNat + 1 ≤ 254)
    (hrows : RestoreSafe srv.subnetBase (env.computed api srv table)) :
    ∀ p ∈ env.sums api srv table, p.1.d.toNat + p.2 ≤ 254 := by
  intro p hp
  rcases List.mem_cons.mp hp with rfl | hp
  · exact hbase
  · obtain ⟨r, hr, rfl⟩ := List.mem_map.mp hp
    exact (hrows r hr).1

theorem StartEnv.stores_addressed (hrow : ∀ {id r}, table.get? id = some r → RowAddressed sums id r) {k : ℕ}
    {st : PeerState} (h : (env.stores api srv table).peers k = some st) :
    ∃ r ∈ env.computed api srv table, Wrap.asU16 r.id = k ∧ r.address? = some st.allowedIp ∧
      AddressOf sums k st.allowedIp := by
  obtain ⟨r, hr, hrest⟩ := stores_entry h
  obtain ⟨hmem, hkey⟩ := mem_of_computed hr
  obtain ⟨-, ip, hip, haddr⟩ := (hrow (Table.get?_of_mem hmem)).stored hkey
  rw [← hrest.key, hrest.address ip hip]
  exact ⟨r, hr, rfl, hip, haddr⟩

/-- A row that stores an address and for which the start computes one is restored with its own address: no
    other row has its id. -/
theorem StartEnv.stores_self (hrow : ∀ {id r}, table.get? id = some r → RowAddressed sums id r) {r : WgRow}
    {ip : Ipv4Addr} (hr : r ∈ env.computed api srv table) (hip : r.address? = some ip) :
    ∃ st, (env.stores api srv table).peers (Wrap.asU16 r.id) = some st ∧ st.allowedIp = ip := by
  obtain ⟨text, htext, -⟩ := Option.bind_eq_some_iff.mp hip
  obtain ⟨st, hst⟩ := Option.isSome_iff_exists.mp (stores_computed hr (Option.isSome_iff_exists.mpr ⟨text, htext⟩))
  obtain ⟨r', hr', heq, hip', -⟩ := stores_addressed hrow hst
  obtain ⟨hmem, hkey⟩ := mem_of_computed hr
  obtain ⟨hmem', hkey'⟩ := mem_of_computed hr'
  have hid : r'.id = r.id := by
    rw [← ((hrow (Table.get?_of_mem hmem)).stored hkey).1, ← ((hrow (Table.get?_of_mem hmem')).stored hkey').1, heq]
  have hrr := Table.get?_of_mem hmem'
  rw [hid, Table.get?_of_mem hmem] at hrr
  cases hrr
  exact ⟨st, hst, Option.some.inj (hip'.symm.trans hip)⟩

theorem Running.start_of (hrow : ∀ {id r}, table.get? id = some r → RowAddressed sums id r) (hsub : sums ⊆ sums')
    (hserver : (srv.subnetBase, 1) ∈ sums') (hsafe : RestoreSafe srv.subnetBase (env.computed api srv table)) :
    Running sums' (.ofConfig api srv env.config)
      { Sys.fresh env.nowMs with toWgState := env.stores api srv table } where
  range := rfl
  server := hserver
  selected h := by cases h
  drawn h := by cases h
  peer h := by
    obtain ⟨r, -, -, -, haddr⟩ := StartEnv.stores_addressed hrow h
    exact haddr.mono hsub
  apart {k k' st st'} h h' hne heq := by
    obtain ⟨r, hr, rfl, hip, -⟩ := StartEnv.stores_addressed hrow h
    obtain ⟨r', hr', rfl, hip', -⟩ := StartEnv.stores_addressed hrow h'
    -- two addresses of the new subnet differ as the ids do
    by_cases hown : srv.subnetBase.HostAt (Wrap.asU16 r.id + 1) st.allowedIp
    · by_cases hown' : srv.subnetBase.HostAt (Wrap.asU16 r'.id + 1) st'.allowedIp
      · rw [heq] at hown
        exact hne (Nat.succ.inj (hown.offset_eq hown'))
      · exact ((hsafe r' hr').2 _ hip' hown').2 r hr hne (heq ▸ hip)
    · exact ((hsafe r hr).2 _ hip hown).2 r' hr' hne.symm (heq ▸ hip')
  not_server {k st} h hserver := by
    obtain ⟨r, hr, rfl, hip, hone, -⟩ := StartEnv.stores_addressed hrow h
    by_cases hown : srv.subnetBase.HostAt (Wrap.asU16 r.id + 1) st.allowedIp
    · have := hserver.offset_eq hown
      omega
    · exact ((hsafe r hr).2 _ hip hown).1 hserver

end Start

namespace Host
variable {api : WgApi} {h h' : Host} {clock : Int}

theorem Inv.off (clock : Int) : (Host.off clock).Inv where
  sum _ hp := by cases hp
  row hr := by cases hr
  running _ hD := by cases hD

theorem Inv.act {a : Act} (I : h.Inv) (hsafe : h.AddressSafe api (.act a)) (hs : h.step api (.act a) = some h') :
    h'.Inv := by
  obtain ⟨D, sys, hD, hstep, rfl⟩ := act_inv hs
  have R := I.running D hD
  have hsafe := hsafe D hD
  refine ⟨fun p hp => ?_, fun hr => ?_, fun D' hD' => ?_⟩
  · exact (List.mem_append.mp hp).elim (I.sum p) (Deployment.sums_le hsafe p)
  · exact (R.row I.sum I.row hstep hr).mono (List.subset_append_left ..)
  · cases hD.symm.trans hD'
    exact R.step I.sum (List.subset_append_left ..) (List.subset_append_right ..) hsafe hstep

theorem Inv.restart {env : StartEnv} (I : h.Inv) (hsafe : h.AddressSafe api (.restart env)) :
    (h.restart api env).Inv := by
  rcases restart_inv api h env with ⟨srv, keys, hnew, hstart, heq⟩ | ⟨keys, heq⟩
  · obtain ⟨hbase, hrows⟩ := hsafe srv keys hnew hstart
    rw [heq]
    refine ⟨fun p hp => ?_, fun {id r} hr => ?_, fun D hD => ?_⟩
    · exact (List.mem_append.mp hp).elim (I.sum p) (StartEnv.sums_le hbase hrows p)
    · rw [show Table.get? _ id = _ from congrArg (·.get? id) (env.stores_table api srv h.sys.table)] at hr
      exact (I.row hr).mono (List.subset_append_left ..)
    · cases hD
      exact .start_of I.row (List.subset_append_left ..)
        (List.mem_append_right _ List.mem_cons_self) hrows
  · rw [heq]
    exact ⟨I.sum, I.row, fun _ hD => by cases hD⟩

theorem Inv.step {a : HostAct} (I : h.Inv) (hsafe : h.AddressSafe api a) (hs : h.step api a = some h') : h'.Inv := by
  cases a with
  | act a => exact I.act hsafe hs
  | restart env =>
    cases hs
    exact I.restart hsafe

theorem Inv.of_reach (hr : Reach (Host.step api) (Host.AddressSafe api) (.off clock) h) : h.Inv :=
  hr.inv (Inv.off clock) fun _ _ _ I hsafe hs => I.step hsafe hs

theorem Inv.addressed {D : Deployment} (I : h.Inv) (hD : h.deployment = some D) : Addressed h D := by
  have R := I.running D hD
  have hserver := I.sum _ R.server
  refine ⟨I.sum, ?_, fun hk => (R.peer hk).2, R.apart, fun hk heq => ?_⟩
  · exact ⟨_, rfl, (hostAt_serverAddress hserver).mp rfl⟩
  · exact R.not_server hk ((hostAt_serverAddress hserver).mp heq)

/-! ### The condition is exact -/

theorem Inv.act_safe {a : Act} (I : h.Inv) (hs : h.step api (.act a) = some h')
    (hA : ∀ D ∈ h'.deployment, Addressed h' D) : h.AddressSafe api (.act a) := by
  intro D hD
  obtain ⟨D', sys, hD', hstep, rfl⟩ := act_inv hs
  cases hD.symm.trans hD'
  have A := hA D hD
  have R := I.running D hD
  unfold Deployment.AddressSafe
  split
  · next c secret psk kernel =>
    intro id hid
    exact A.sum _ (List.mem_append_right _ (List.mem_map.mpr ⟨id, Option.mem_toList.mpr hid, rfl⟩))
  · next c =>
    intro id hid k st' hk hown hmeets
    obtain ⟨e, id', st, hc, rfl⟩ := Step.mapInsert_inv (D := D) hstep
    cases hid.symm.trans (Sys.peerId?_eq hc)
    have hne : k ≠ Wrap.asU16 id := fun heq => hown (heq ▸ hmeets)
    have hnew : Function.update h.sys.peers (Wrap.asU16 id) (some st) (Wrap.asU16 id) = some st := Function.update_self ..
    have hold : Function.update h.sys.peers (Wrap.asU16 id) (some st) k = some st' := by
      rw [Function.update_of_ne hne]
      exact hk
    exact A.apart hold hnew hne (hmeets.eq (R.drawn_hostAt I.sum hid (Sys.state?_eq hc)))
  · trivial

theorem Inv.restart_safe {env : StartEnv} (I : h.Inv)
    (hA : ∀ D ∈ (h.restart api env).deployment, Addressed (h.restart api env) D) : h.AddressSafe api (.restart env) := by
  intro srv keys hnew hstart
  rw [restart_of_ok hnew hstart] at hA
  have A := hA _ rfl
  have hbase : srv.subnetBase.d.toNat + 1 ≤ 254 := A.sum _ (List.mem_append_right _ List.mem_cons_self)
  refine ⟨hbase, fun r hr => ⟨?_, fun ip hip _ => ⟨fun hserver => ?_, fun r' hr' hne hip' => ?_⟩⟩⟩
  · exact A.sum _ (List.mem_append_right _ (List.mem_cons_of_mem _ (List.mem_map.mpr ⟨r, hr, rfl⟩)))
  · obtain ⟨st, hst, rfl⟩ := StartEnv.stores_self I.row hr hip
    exact A.not_server hst ((hostAt_serverAddress hbase).mpr hserver)
  · obtain ⟨st, hst, rfl⟩ := StartEnv.stores_self I.row hr hip
    obtain ⟨st', hst', heq⟩ := StartEnv.stores_self I.row hr' hip'
    exact A.apart hst' hst hne heq

end Host

/-- The runs after each of whose steps the addresses are in order are those whose steps meet the condition. -/
theorem addressed_runs_iff {api : WgApi} {clock : Int} {h : Host} :
    Reach (Host.step api) (fun h a => ∀ h' ∈ h.step api a, ∀ D ∈ h'.deployment, Addressed h' D) (.off clock) h ↔
      Reach (Host.step api) (Host.AddressSafe api) (.off clock) h := by
  constructor
  · intro hr
    refine hr.inv (I := Reach (Host.step api) (Host.AddressSafe api) (.off clock)) .refl fun h a h' hsafe hA hs => ?_
    have I := Host.Inv.of_reach hsafe
    cases a with
    | act a => exact hsafe.step _ (I.act_safe hs (hA h' hs)) hs
    | restart env =>
      cases hs
      exact hsafe.step _ (I.restart_safe (hA _ rfl)) rfl
  · intro hr
    refine hr.inv_of_reached .refl fun h a h' hreach hA hsafe hs => hA.step a (fun h'' hs' D hD => ?_) hs
    cases hs.symm.trans hs'
    exact (Host.Inv.of_reach (hreach.step a hsafe hs)).addressed hD

/-! ### One subnet -/

/-- A start under the subnet of `base`. -/
def HostAct.Under (base : Ipv4Addr) : HostAct → Prop
  | .restart env => Ipv4Addr.parse env.config.wgSubnet = some base
  | .act _ => True

structure OneSubnet (base : Ipv4Addr) (h : Host) : Prop where
  sum : ∀ p ∈ h.sums, p.1 = base
  srv : ∀ D ∈ h.deployment, D.srv.subnetBase = base

section OneSubnet
variable {api : WgApi} {base : Ipv4Addr} {h h' : Host} {a : HostAct} {clock : Int}

theorem OneSubnet.off (clock : Int) : OneSubnet base (.off clock) where
  sum _ hp := by cases hp
  srv _ hD := by cases hD

theorem OneSubnet.step (O : OneSubnet base h) (hunder : a.Under base) (hs : h.step api a = some h') : OneSubnet base h' := by
  cases a with
  | act a =>
    obtain ⟨D, sys, hD, hstep, rfl⟩ := Host.act_inv hs
    refine ⟨fun p hp => (List.mem_append.mp hp).elim (O.sum p) fun hp => ?_, O.srv⟩
    unfold Deployment.sums at hp
    split at hp
    · obtain ⟨id, -, rfl⟩ := List.mem_map.mp hp
      exact O.srv D hD
    · cases hp
  | restart env =>
    cases hs
    rcases Host.restart_inv api h env with ⟨srv, keys, hnew, -, heq⟩ | ⟨keys, heq⟩
    · have hsubnet : srv.subnetBase = base :=
        Option.some.inj ((WireGuardServer.new_subnetBase hnew).symm.trans hunder)
      rw [heq]
      refine ⟨fun p hp => (List.mem_append.mp hp).elim (O.sum p) fun hp => ?_, fun D hD => ?_⟩
      · rcases List.mem_cons.mp hp with rfl | hp
        · exact hsubnet
        · obtain ⟨r, -, rfl⟩ := List.mem_map.mp hp
          exact hsubnet
      · cases hD
        exact hsubnet
    · rw [heq]
      exact ⟨O.sum, fun _ hD => by cases hD⟩

theorem AddressOf.hostAt (O : OneSubnet base h) {k : ℕ} {ip : Ipv4Addr} (haddr : AddressOf h.sums k ip) :
    base.HostAt (k + 1) ip := by
  obtain ⟨-, base', hmem, hhost⟩ := haddr
  exact O.sum _ hmem ▸ hhost

/-- Under one subnet whose last octet is 0 every step meets the condition. -/
theorem OneSubnet.safe (O : OneSubnet base h) (I : h.Inv) (hzero : base.d = 0) (hunder : a.Under base)
    (hs : h.step api a = some h') : h.AddressSafe api a := by
  have hoctet : base.d.toNat = 0 := congrArg UInt8.toNat hzero
  cases a with
  | act a =>
    intro D hD
    obtain ⟨D', sys, hD', hstep, rfl⟩ := Host.act_inv hs
    cases hD.symm.trans hD'
    have R := I.running D hD
    unfold Deployment.AddressSafe
    rw [O.srv D hD]
    split
    · intro id hid
      obtain ⟨e, id', result, iface, hc, -, -⟩ := Step.configure_inv hstep
      cases hid.symm.trans (Sys.peerId?_eq hc)
      have := (R.asU16_mem (R.selected (Sys.selected?_eq hc))).2
      omega
    · intro id hid k st hk hown
      exact absurd ((R.peer hk).hostAt O) hown
    · trivial
  | restart env =>
    intro srv keys hnew hstart
    have hsubnet : srv.subnetBase = base := Option.some.inj ((WireGuardServer.new_subnetBase hnew).symm.trans hunder)
    rw [hsubnet]
    refine ⟨by omega, fun r hr => ?_⟩
    obtain ⟨hmem, hkey⟩ := StartEnv.mem_of_computed hr
    obtain ⟨-, ip, hip, haddr⟩ := (I.row (Table.get?_of_mem hmem)).stored hkey
    have hhost := haddr.hostAt O
    refine ⟨by have := hhost.2; omega, fun ip' hip' hown => ?_⟩
    cases hip.symm.trans hip'
    exact absurd hhost hown

theorem OneSubnet.reach (hzero : base.d = 0) (hr : Reach (Host.step api) (fun _ a => a.Under base) (.off clock) h) :
    OneSubnet base h ∧ Reach (Host.step api) (Host.AddressSafe api) (.off clock) h := by
  refine hr.inv (I := fun h => OneSubnet base h ∧ Reach (Host.step api) (Host.AddressSafe api) (.off clock) h)
    ⟨.off clock, .refl⟩ fun h a h' hI hunder hs => ?_
  obtain ⟨O, hsafe⟩ := hI
  exact ⟨O.step hunder hs, hsafe.step a (O.safe (.of_reach hsafe) hzero hunder hs) hs⟩

/-- With one subnet over all starts, whose last octet is 0, the addresses are in order in every state. -/
theorem addressed_of_one_subnet {D : Deployment} (hzero : base.d = 0)
    (hr : Reach (Host.step api) (fun _ a => a.Under base) (.off clock) h) (hD : h.deployment = some D) :
    Addressed h D :=
  (Host.Inv.of_reach (OneSubnet.reach hzero hr).2).addressed hD

end OneSubnet

/-! ### Every run -/

/-- Over any run of allocations, cleanups and restarts whose steps meet the condition, the tunnel addresses
    are host addresses of the subnets they were computed from, and no two are the same. -/
theorem tunnel_addresses {api : WgApi} {clock : Int} {h : Host} {D : Deployment}
    (hr : Reach (Host.step api) (Host.AddressSafe api) (.off clock) h) (hD : h.deployment = some D) : Addressed h D :=
  (Host.Inv.of_reach hr).addressed hD

namespace StartEnv

/-- A start of a worker with two peers, for runs on fixed inputs. -/
def sample (subnet : String) (nowMs : Int) : StartEnv :=
  ⟨{ (Deployment.sample 2).config with wgSubnet := subnet }, .replicate 3, .empty, .ok (), nowMs, .ok (),
    fun _ => .ok ()⟩

end StartEnv

/-- The steps of an allocation that draws the secret of 32 bytes `b`. -/
def HostAct.allocate (expiresAt : Int) (b : UInt8) : List HostAct :=
  (Act.reserve 1 expiresAt ++ Act.install 1 b).map .act

/-- Under the base 10.13.13.254 the first peer gets the address 10.13.13.0, of a wrapped sum. When the base goes from
    10.13.13.1 to 10.13.13.0, the restored first peer and a new second one share the address 10.13.13.3. -/
theorem tunnel_addresses_meet :
    (∃ h D st, Reach (Host.step .known) (fun _ _ => True) (.off 0) h ∧ h.deployment = some D ∧ h.sys.peers 1 = some st ∧
      st.allowedIp = ⟨10, 13, 13, 0⟩ ∧ ¬Addressed h D) ∧
    ∃ h D st st', Reach (Host.step .known) (fun _ _ => True) (.off 0) h ∧ h.deployment = some D ∧
      h.sys.peers 1 = some st ∧ h.sys.peers 2 = some st' ∧ st.allowedIp = st'.allowedIp ∧ ¬Addressed h D := by
  constructor
  · have hrun : (exec (Host.step .known) (.off 0)
        (.restart (.sample "10.13.13.254" 0) :: HostAct.allocate 1000 1)).any fun h => decide
          (h.deployment.isSome ∧ (h.sys.peers 1).map (·.allowedIp) = some ⟨10, 13, 13, 0⟩ ∧
            (⟨10, 13, 13, 254⟩, 1) ∈ h.sums) := by
      decide +kernel
    obtain ⟨h, hs, hfacts⟩ := (Option.any_eq_true _ _).mp hrun
    obtain ⟨hD, hpeer, hsum⟩ := of_decide_eq_true hfacts
    obtain ⟨D, hD⟩ := Option.isSome_iff_exists.mp hD
    obtain ⟨st, hst, hip⟩ := Option.map_eq_some_iff.mp hpeer
    exact ⟨h, D, st, .of_exec (fun _ _ => trivial) hs, hD, hst, hip, fun A => absurd (A.sum _ hsum) (by decide)⟩
  · have hrun : (exec (Host.step .known) (.off 0)
        (.restart (.sample "10.13.13.1" 0) :: HostAct.allocate 1000 1 ++
          .restart (.sample "10.13.13.0" 10) :: HostAct.allocate 1000 2)).any fun h => decide
          (h.deployment.isSome ∧ (h.sys.peers 1).map (·.allowedIp) = some ⟨10, 13, 13, 3⟩ ∧
            (h.sys.peers 2).map (·.allowedIp) = some ⟨10, 13, 13, 3⟩) := by
      decide +kernel
    obtain ⟨h, hs, hfacts⟩ := (Option.any_eq_true _ _).mp hrun
    obtain ⟨hD, hpeer, hpeer'⟩ := of_decide_eq_true hfacts
    obtain ⟨D, hD⟩ := Option.isSome_iff_exists.mp hD
    obtain ⟨st, hst, hip⟩ := Option.map_eq_some_iff.mp hpeer
    obtain ⟨st', hst', hip'⟩ := Option.map_eq_some_iff.mp hpeer'
    have heq := hip.trans hip'.symm
    exact ⟨h, D, st, st', .of_exec (fun _ _ => trivial) hs, hD, hst, hst', heq,
      fun A => A.apart hst hst' (by decide) heq⟩

theorem tunnel_addresses_sample :
    ∃ h D st, h.deployment = some D ∧ D.srv.subnetBase = ⟨10, 13, 14, 0⟩ ∧ h.sys.peers 1 = some st ∧
      st.allowedIp = ⟨10, 13, 13, 2⟩ ∧ Addressed h D := by
  let srv : WireGuardServer := { (Deployment.sample 2).srv with subnetBase := ⟨10, 13, 14, 0⟩ }
  let env := StartEnv.sample "10.13.14.0" 10
  have hrun : (exec (Host.step .known) (.off 0)
      (.restart (.sample "10.13.13.0" 0) :: HostAct.allocate 1000 1)).any fun h => decide
        (h.keys = [generateKeypair .known (.replicate 3)] ∧
          RestoreSafe ⟨10, 13, 14, 0⟩ (env.computed .known srv h.sys.table) ∧
          ((env.stores .known srv h.sys.table).peers 1).map (·.allowedIp) = some ⟨10, 13, 13, 2⟩) := by
    decide +kernel
  obtain ⟨h, hs, hfacts⟩ := (Option.any_eq_true _ _).mp hrun
  obtain ⟨hkeys, hrestore, hpeer⟩ := of_decide_eq_true hfacts
  obtain ⟨st, hst, hip⟩ := Option.map_eq_some_iff.mp hpeer
  have hnew : WireGuardServer.new .known env.config h.keys env.secret =
      (.ok srv, [generateKeypair .known (.replicate 3)]) := by
    have hsubnet : Ipv4Addr.parse env.config.wgSubnet = some ⟨10, 13, 14, 0⟩ := by
      show Ipv4Addr.parse "10.13.14.0" = _
      decide +kernel
    simp only [WireGuardServer.new, hsubnet, hkeys]
    rfl
  have hfirst : Reach (Host.step .known) (fun _ a => a.Under ⟨10, 13, 13, 0⟩) (.off 0) h := by
    refine .of_exec (fun a ha => ?_) hs
    rcases List.mem_cons.mp ha with rfl | ha
    · show Ipv4Addr.parse "10.13.13.0" = _
      decide +kernel
    · obtain ⟨a, -, rfl⟩ := List.mem_map.mp ha
      trivial
  have hsafe : h.AddressSafe .known (.restart env) := by
    intro srv' keys hnew' hstart
    cases hnew.symm.trans hnew'
    exact ⟨by decide, hrestore⟩
  have hr := (OneSubnet.reach rfl hfirst).2.step (.restart env) hsafe rfl
  rw [Host.restart_of_ok hnew rfl] at hr
  exact ⟨_, _, st, rfl, rfl, hst, hip, tunnel_addresses hr rfl⟩

end TpnWorker
