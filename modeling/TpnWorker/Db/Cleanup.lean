import TpnWorker.Config
import TpnWorker.Lib.Update
import TpnWorker.Wireguard.Server

/-! The periodic cleanup (`src/db/cleanup.rs`): expired peers leave the interface and the map, then their
    rows are deleted. -/

namespace TpnWorker
open Keyed

/-- What one pass meets: the clock at its start and at its query, and the outcomes of its calls. -/
structure CleanupEnv where
  nowMs : Int
  queryMs : Int
  expiredPeerIds : Except String Unit
  removePeer : Int → Except String Unit
  deleteRows : Except String Unit

/-- Remove the listed peers; a failure is logged and the loop goes on. -/
def removeExpiredPeers (api : WgApi) (kernel : Int → Except String Unit) (listed : List Int) (s : WgState) : WgState :=
  listed.foldl (fun s id => (removePeer api s (Wrap.asU16 id) (kernel id)).2) s

/-- The removal of the expired peers, for a node that runs a WireGuard server. -/
def removeExpiredFromInterface (api : WgApi) (wgServer : Option WireGuardServer) (s : WgState) (env : CleanupEnv) :
    WgState :=
  match wgServer, env.expiredPeerIds with
  | some _, .ok () => removeExpiredPeers api env.removePeer (expiredPeerIds s.table env.queryMs) s
  | _, _ => s

/-- `cleanup_table` on `worker_wireguard_configs`. -/
def cleanupTable (t : WgTable) (cutoff : Int) (deleteRows : Except String Unit) : WgTable :=
  match deleteRows with
  | .error _ => t
  | .ok () => t.deleteWhere fun r => decide (r.expiresAt < cutoff)

/-- One cleanup pass over the WireGuard leases. -/
def databaseCleanup (api : WgApi) (config : AppConfig) (wgServer : Option WireGuardServer) (s : WgState)
    (env : CleanupEnv) : WgState :=
  if config.runMode = .worker then
    let s := removeExpiredFromInterface api wgServer s env
    { s with table := cleanupTable s.table env.nowMs env.deleteRows }
  else s

/-! ### What a pass removes -/

section Removal
variable {api : WgApi} {kernel : Int → Except String Unit} {listed : List Int} {s : WgState} {t : WgTable} {k : ℕ} {key : Key}
  {cutoff id : Int} {delete : Except String Unit} {r : WgRow}

@[simp] theorem removeExpiredPeers_table : (removeExpiredPeers api kernel listed s).table = s.table := by
  induction listed generalizing s with
  | nil => rfl
  | cons id rest ih => exact ih.trans (removePeer_table ..)

/-- The listed ids lose their entries, whatever the kernel says. -/
theorem removeExpiredPeers_peers :
    (removeExpiredPeers api kernel listed s).peers k = if k ∈ listed.map Wrap.asU16 then none else s.peers k := by
  induction listed generalizing s with
  | nil => rfl
  | cons id rest ih =>
    have hstep := ih (s := (removePeer api s (Wrap.asU16 id) (kernel id)).2)
    rw [removePeer_peers] at hstep
    refine hstep.trans ?_
    rw [List.map_cons]
    by_cases hk : k = Wrap.asU16 id
    · rw [hk, Function.update_self, ite_self, if_pos List.mem_cons_self]
    · simp only [Function.update_of_ne hk, List.mem_cons, hk, false_or]

/-- The pass takes a key off the interface: of the listed ids that stand for an entry of the key, the kernel accepts the
    first. -/
def TakesOff (kernel : Int → Except String Unit) (listed : List Int) (peers : Peers) (key : Key) : Prop :=
  ∃ k st id, peers k = some st ∧ st.HasKey key ∧ listed.find? (fun id => decide (Wrap.asU16 id = k)) = some id ∧
    kernel id = .ok ()

theorem takesOff_cons {peers : Peers} : TakesOff kernel (id :: listed) peers key ↔
    RemovesKey peers (Wrap.asU16 id) (kernel id) key ∨
      TakesOff kernel listed (Function.update peers (Wrap.asU16 id) none) key := by
  constructor
  · rintro ⟨k, st, id', hst, hkey, hfirst, hok⟩
    rw [List.find?_cons] at hfirst
    by_cases hid : Wrap.asU16 id = k
    · rw [decide_eq_true hid] at hfirst
      cases hfirst
      exact Or.inl ⟨st, hid ▸ hst, hkey, hok⟩
    · rw [decide_eq_false hid] at hfirst
      exact Or.inr ⟨k, st, id', (Function.update_of_ne (Ne.symm hid) _ _).trans hst, hkey, hfirst, hok⟩
  · rintro (⟨st, hst, hkey, hok⟩ | ⟨k, st, id', hst, hkey, hfirst, hok⟩)
    · refine ⟨_, st, id, hst, hkey, ?_, hok⟩
      rw [List.find?_cons, decide_eq_true rfl]
    · obtain ⟨hid, hst⟩ := Function.update_none_cases hst
      refine ⟨k, st, id', hst, hkey, ?_, hok⟩
      rw [List.find?_cons, decide_eq_false hid.symm]
      exact hfirst

theorem isSome_removeExpiredPeers_iface : ((removeExpiredPeers api kernel listed s).iface key).isSome ↔
    (s.iface key).isSome ∧ ¬TakesOff kernel listed s.peers key := by
  induction listed generalizing s with
  | nil =>
    have hnot : ¬TakesOff kernel [] s.peers key := by
      rintro ⟨_, _, _, -, -, hfirst, -⟩
      cases hfirst
    exact (and_iff_left hnot).symm
  | cons id rest ih =>
    refine (ih (s := (removePeer api s (Wrap.asU16 id) (kernel id)).2)).trans ?_
    rw [isSome_removePeer_iface, removePeer_peers, takesOff_cons, not_or, and_assoc]

theorem get?_cleanupTable_eq_some : (cleanupTable t cutoff delete).get? id = some r ↔
    t.get? id = some r ∧ (delete = .ok () → cutoff ≤ r.expiresAt) := by
  cases delete with
  | error e => simp [cleanupTable]
  | ok =>
    rw [cleanupTable, Table.get?_deleteWhere, Option.filter_eq_some_iff]
    simp

end Removal

theorem rowsFrom_cleanupTable {R : WgRow → WgRow → Prop} (hR : ∀ r, R r r) (t : WgTable) (cutoff : Int)
    (delete : Except String Unit) : t.RowsFrom R (cleanupTable t cutoff delete) := by
  cases delete with
  | error => exact .refl hR t
  | ok => exact .deleteWhere hR t _

end TpnWorker
