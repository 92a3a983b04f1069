import TpnWorker.Concurrent.Step

/-! A worker process that can stop at any point and start again, with the same settings or with others. The
    database outlives it; the map, and the calls and passes under way, do not. One history variable records
    the sums that the tunnel addresses were computed from; no step reads it. -/

namespace TpnWorker
open Keyed

/-- The address that a row stores. -/
def WgRow.address? (r : WgRow) : Option Ipv4Addr := r.allowedIp.bind Ipv4Addr.parse

/-- The interface accepts the peer of a row. -/
def rowAccepted (api : WgApi) (srv : WireGuardServer) (configurePeer : Int → Except String Unit) (row : WgRow) : Bool :=
  row.publicKey.any fun publicKey =>
    (addPeerToInterface api .empty publicKey (row.presharedKey.getD "")
      (row.allowedIp.getD (peerIp srv (Wrap.asU16 row.id)).display) (configurePeer row.id)).1.isOk

/-- The rows for which `restore_peers` computes an address: those that store none, and those whose peer it
    enters in the map, where the computed address is the default for a text that does not parse. -/
def computedRows (api : WgApi) (srv : WireGuardServer) (t : WgTable) (nowMs : Int)
    (configurePeer : Int → Except String Unit) : List WgRow :=
  (restorableRows t nowMs).filter fun r => r.allowedIp.isNone || rowAccepted api srv configurePeer r

/-- What a start reads and draws, and the outcome of what can fail in it. -/
structure StartEnv where
  config : AppConfig
  secret : Key
  iface : Interface
  start : Except String Unit
  nowMs : Int
  rows : Except String Unit
  configurePeer : Int → Except String Unit

inductive HostAct where
  | act (a : Act)
  | restart (env : StartEnv)

/-- The database and the process on one host. A sum of `sums` is a base address and what was added to its
    last octet. -/
structure Host where
  keys : List WgKeyPair
  deployment : Option Deployment
  sys : Sys
  sums : List (Ipv4Addr × ℕ)

/-- The worker that a configuration describes. -/
def Deployment.ofConfig (api : WgApi) (srv : WireGuardServer) (config : AppConfig) : Deployment :=
  ⟨api, srv, config, .ofConfig config⟩

/-- The sum that the step computes for `add_peer`. -/
def Deployment.sums (D : Deployment) (s : Sys) : Act → List (Ipv4Addr × ℕ)
  | .call c (.configure ..) => (s.peerId? c).toList.map fun id => (D.srv.subnetBase, Wrap.asU16 id + 1)
  | _ => []

namespace StartEnv

/-- The stores of a new server once `restore_peers` has returned. -/
def stores (env : StartEnv) (api : WgApi) (srv : WireGuardServer) (table : WgTable) : WgState :=
  match env.rows with
  | .ok () => (restorePeers api srv ⟨table, fun _ => none, env.iface⟩ env.nowMs env.configurePeer).2
  | .error _ => ⟨table, fun _ => none, env.iface⟩

/-- The rows for which the start computes an address. -/
def computed (env : StartEnv) (api : WgApi) (srv : WireGuardServer) (table : WgTable) : List WgRow :=
  match env.rows with
  | .ok () => computedRows api srv table env.nowMs env.configurePeer
  | .error _ => []

/-- The sums of `server_address` and of `restore_peers`. -/
def sums (env : StartEnv) (api : WgApi) (srv : WireGuardServer) (table : WgTable) : List (Ipv4Addr × ℕ) :=
  (srv.subnetBase, 1) :: (env.computed api srv table).map fun r => (srv.subnetBase, Wrap.asU16 r.id + 1)

end StartEnv

namespace Host

/-- A host on which the worker has never run. -/
def off (clock : Int) : Host := ⟨[], none, .fresh clock, []⟩

/-- A start, which ends the process that ran before it. -/
def restart (api : WgApi) (h : Host) (env : StartEnv) : Host :=
  match WireGuardServer.new api env.config h.keys env.secret, env.start with
  | (.ok srv, keys), .ok () =>
    { keys
      deployment := some (.ofConfig api srv env.config)
      sys := { Sys.fresh env.nowMs with toWgState := env.stores api srv h.sys.table }
      sums := h.sums ++ env.sums api srv h.sys.table }
  | (_, keys), _ =>
    -- the process exits
    { h with keys, deployment := none, sys := { Sys.fresh env.nowMs with table := h.sys.table } }

def step (api : WgApi) (h : Host) : HostAct → Option Host
  | .act a =>
    match h.deployment with
    | none => none
    | some D => (D.step h.sys a).map fun sys => { h with sys, sums := h.sums ++ D.sums h.sys a }
  | .restart env => some (h.restart api env)

theorem act_inv {api : WgApi} {h h' : Host} {a : Act} (hs : h.step api (.act a) = some h') :
    ∃ D sys, h.deployment = some D ∧ D.step h.sys a = some sys ∧
      h' = { h with sys, sums := h.sums ++ D.sums h.sys a } := by
  simp only [step] at hs
  split at hs
  · cases hs
  · next D hD =>
    obtain ⟨sys, hstep, rfl⟩ := Option.map_eq_some_iff.mp hs
    exact ⟨D, sys, hD, hstep, rfl⟩

theorem restart_of_ok {api : WgApi} {h : Host} {env : StartEnv} {srv : WireGuardServer} {keys : List WgKeyPair}
    (hnew : WireGuardServer.new api env.config h.keys env.secret = (.ok srv, keys)) (hstart : env.start = .ok ()) :
    h.restart api env =
      { keys
        deployment := some (.ofConfig api srv env.config)
        sys := { Sys.fresh env.nowMs with toWgState := env.stores api srv h.sys.table }
        sums := h.sums ++ env.sums api srv h.sys.table } := by
  simp only [restart, hnew, hstart]

theorem restart_inv (api : WgApi) (h : Host) (env : StartEnv) :
    (∃ srv keys, WireGuardServer.new api env.config h.keys env.secret = (.ok srv, keys) ∧ env.start = .ok () ∧
      h.restart api env =
        { keys
          deployment := some (.ofConfig api srv env.config)
          sys := { Sys.fresh env.nowMs with toWgState := env.stores api srv h.sys.table }
          sums := h.sums ++ env.sums api srv h.sys.table }) ∨
    ∃ keys, h.restart api env =
      { h with keys, deployment := none, sys := { Sys.fresh env.nowMs with table := h.sys.table } } := by
  simp only [restart]
  split
  · next srv keys hnew hstart => exact Or.inl ⟨srv, keys, hnew, hstart, rfl⟩
  · exact Or.inr ⟨_, rfl⟩

end Host

/-! ### What a start restores -/

section Restore
variable {api : WgApi} {srv : WireGuardServer} {kernel : Int → Except String Unit} {k : ℕ} {st : PeerState}

/-- Whether a peer is accepted does not depend on the peers that are configured. -/
theorem addPeerToInterface_fst (iface iface' : Interface) (pub psk allowedIp : String) (outcome : Except String Unit) :
    (addPeerToInterface api iface pub psk allowedIp outcome).1 =
      (addPeerToInterface api iface' pub psk allowedIp outcome).1 := by
  simp only [addPeerToInterface]
  split
  · rfl
  · split <;> rfl

/-- A restored entry is under the id of its row, with the address that the row stores. -/
structure Restored (api : WgApi) (srv : WireGuardServer) (kernel : Int → Except String Unit) (k : ℕ) (st : PeerState)
    (r : WgRow) : Prop where
  accepted : rowAccepted api srv kernel r = true
  key : Wrap.asU16 r.id = k
  address : ∀ ip, r.address? = some ip → st.allowedIp = ip

theorem restorePeer_entry {row : WgRow} {acc : ℕ × WgState}
    (h : (restorePeer api srv kernel row acc).2.peers k = some st) :
    acc.2.peers k = some st ∨ Restored api srv kernel k st row := by
  simp only [restorePeer] at h
  split at h
  · exact Or.inl h
  · next publicKey hpub =>
    split at h
    · exact Or.inl h
    · next iface hadd =>
      dsimp only at h
      by_cases hk : k = Wrap.asU16 row.id
      · subst hk
        rw [Function.update_self] at h
        cases h
        refine Or.inr ⟨?_, rfl, fun ip hip => ?_⟩
        · rw [rowAccepted, hpub, Option.any_some, addPeerToInterface_fst _ acc.2.iface, hadd]
          rfl
        · obtain ⟨text, htext, hparse⟩ := Option.bind_eq_some_iff.mp hip
          simp only [htext, Option.getD_some, hparse]
      · rw [Function.update_of_ne hk] at h
        exact Or.inl h

theorem restorePeer_mono {row : WgRow} {acc : ℕ × WgState} (h : (acc.2.peers k).isSome) :
    ((restorePeer api srv kernel row acc).2.peers k).isSome := by
  by_cases hk : k = Wrap.asU16 row.id
  · subst hk
    simp only [restorePeer]
    split
    · exact h
    · split
      · exact h
      · simp
  · rw [restorePeer_peers hk]
    exact h

theorem restorePeer_accepted {row : WgRow} {acc : ℕ × WgState} (h : rowAccepted api srv kernel row = true) :
    ((restorePeer api srv kernel row acc).2.peers (Wrap.asU16 row.id)).isSome := by
  obtain ⟨publicKey, hpub, hok⟩ := (Option.any_eq_true _ _).mp h
  rw [addPeerToInterface_fst _ acc.2.iface] at hok
  simp only [restorePeer, hpub]
  split
  · next error iface hadd =>
    rw [hadd] at hok
    cases hok
  · simp

theorem restorePeer_table (row : WgRow) (acc : ℕ × WgState) :
    (restorePeer api srv kernel row acc).2.table = acc.2.table := by
  simp only [restorePeer]
  split
  · rfl
  · split <;> rfl

theorem foldl_restorePeer_table (rows : List WgRow) (acc : ℕ × WgState) :
    (rows.foldl (fun acc row => restorePeer api srv kernel row acc) acc).2.table = acc.2.table := by
  induction rows generalizing acc with
  | nil => rfl
  | cons row rest ih => exact (ih _).trans (restorePeer_table row acc)

theorem foldl_restorePeer_entry {rows : List WgRow} {acc : ℕ × WgState}
    (h : (rows.foldl (fun acc row => restorePeer api srv kernel row acc) acc).2.peers k = some st) :
    acc.2.peers k = some st ∨ ∃ r ∈ rows, Restored api srv kernel k st r := by
  induction rows generalizing acc with
  | nil => exact Or.inl h
  | cons row rest ih =>
    rcases ih h with h | ⟨r, hr, hrest⟩
    · exact (restorePeer_entry h).imp_right fun hrow => ⟨row, List.mem_cons_self, hrow⟩
    · exact Or.inr ⟨r, List.mem_cons_of_mem _ hr, hrest⟩

theorem foldl_restorePeer_mono {rows : List WgRow} {acc : ℕ × WgState} (h : (acc.2.peers k).isSome) :
    ((rows.foldl (fun acc row => restorePeer api srv kernel row acc) acc).2.peers k).isSome := by
  induction rows generalizing acc with
  | nil => exact h
  | cons row rest ih => exact ih (restorePeer_mono h)

theorem foldl_restorePeer_accepted {rows : List WgRow} {acc : ℕ × WgState} {r : WgRow} (hr : r ∈ rows)
    (h : rowAccepted api srv kernel r = true) :
    ((rows.foldl (fun acc row => restorePeer api srv kernel row acc) acc).2.peers (Wrap.asU16 r.id)).isSome := by
  obtain ⟨before, after, rfl⟩ := List.append_of_mem hr
  rw [List.foldl_append, List.foldl_cons]
  exact foldl_restorePeer_mono (restorePeer_accepted h)

@[simp] theorem StartEnv.stores_table (env : StartEnv) (api : WgApi) (srv : WireGuardServer) (table : WgTable) :
    (env.stores api srv table).table = table := by
  unfold stores
  split
  · exact foldl_restorePeer_table _ _
  · rfl

theorem StartEnv.stores_entry {env : StartEnv} {table : WgTable} (h : (env.stores api srv table).peers k = some st) :
    ∃ r ∈ env.computed api srv table, Restored api srv env.configurePeer k st r := by
  unfold stores at h
  unfold computed
  split at h
  · rcases foldl_restorePeer_entry h with h | ⟨r, hr, hrest⟩
    · cases h
    · exact ⟨r, List.mem_filter.mpr ⟨hr, by rw [hrest.accepted, Bool.or_true]⟩, hrest⟩
  · cases h

/-- A row that stores an address and for which the start computes one is restored. -/
theorem StartEnv.stores_computed {env : StartEnv} {table : WgTable} {r : WgRow} (hr : r ∈ env.computed api srv table)
    (hip : r.allowedIp.isSome) : ((env.stores api srv table).peers (Wrap.asU16 r.id)).isSome := by
  unfold computed at hr
  unfold stores
  split at hr
  · obtain ⟨hmem, haccepted⟩ := List.mem_filter.mp hr
    rw [Option.isNone_eq_false_iff.mpr hip, Bool.false_or] at haccepted
    exact foldl_restorePeer_accepted hmem haccepted
  · cases hr

theorem StartEnv.mem_of_computed {env : StartEnv} {table : WgTable} {r : WgRow} (hr : r ∈ env.computed api srv table) :
    r ∈ table.rows ∧ r.privateKey.isSome := by
  unfold computed at hr
  split at hr
  · obtain ⟨hmem, hkeys⟩ := List.mem_filter.mp (List.mem_filter.mp hr).1
    simp only [Bool.and_eq_true] at hkeys
    exact ⟨hmem, hkeys.1.2⟩
  · cases hr

end Restore

end TpnWorker
