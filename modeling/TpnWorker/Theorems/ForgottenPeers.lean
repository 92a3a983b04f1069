import TpnWorker.Node

/-! What a cleanup pass remembers of a peer that it could not remove. `remove_peer` drops the map entry before the calls
    that can fail, and the pass deletes the row whatever came of them. -/

namespace TpnWorker
open Keyed

/-- The key has a map entry, and a row under the entry's id. -/
def HasEntryAndRow (s : WgState) (key : Key) : Prop :=
  ∃ id st, s.peers (Wrap.asU16 id) = some st ∧ st.HasKey key ∧ (s.table.get? id).isSome

/-- A key that is still configured has its entry and its row if it had them before. -/
def Remembered (s s' : WgState) : Prop :=
  ∀ key, (s'.iface key).isSome → HasEntryAndRow s key → HasEntryAndRow s' key

namespace CleanupEnv

/-- The ids whose peers the pass removes. -/
def listed (env : CleanupEnv) (t : WgTable) : List Int :=
  match env.expiredPeerIds with
  | .error _ => []
  | .ok () => TpnWorker.expiredPeerIds t env.queryMs

/-- The pass leaves an entry of the key and the row under its id alone: it lists no id of this entry, and the row has not
    expired at its start, or the DELETE fails. -/
def Spares (env : CleanupEnv) (s : WgState) (key : Key) : Prop :=
  ∃ id st r, s.peers (Wrap.asU16 id) = some st ∧ st.HasKey key ∧ s.table.get? id = some r ∧
    Wrap.asU16 id ∉ (env.listed s.table).map Wrap.asU16 ∧ (env.deleteRows = .ok () → env.nowMs ≤ r.expiresAt)

end CleanupEnv

section Pass
variable {api : WgApi} {config : AppConfig} {srv : WireGuardServer} {s : WgState} {env : CleanupEnv} {key : Key}

theorem databaseCleanup_worker (hmode : config.runMode = .worker) :
    databaseCleanup api config (some srv) s env =
      { removeExpiredPeers api env.removePeer (env.listed s.table) s with
        table := cleanupTable s.table env.nowMs env.deleteRows } := by
  have hremoved : removeExpiredFromInterface api (some srv) s env =
      removeExpiredPeers api env.removePeer (env.listed s.table) s := by
    cases hquery : env.expiredPeerIds with
    | error e => simp only [removeExpiredFromInterface, CleanupEnv.listed, hquery, removeExpiredPeers, List.foldl_nil]
    | ok => simp only [removeExpiredFromInterface, CleanupEnv.listed, hquery]
  simp only [databaseCleanup, hmode, if_true, hremoved, removeExpiredPeers_table]

/-- What is left of a key's entries and rows after a pass. -/
theorem hasEntryAndRow_cleanup (hmode : config.runMode = .worker) :
    HasEntryAndRow (databaseCleanup api config (some srv) s env) key ↔ env.Spares s key := by
  rw [databaseCleanup_worker hmode]
  simp only [HasEntryAndRow, CleanupEnv.Spares, removeExpiredPeers_peers, Option.isSome_iff_exists,
    get?_cleanupTable_eq_some]
  refine exists_congr fun id => exists_congr fun st => ?_
  split
  · next hlisted => simp [hlisted]
  · next hlisted =>
    simp only [hlisted, not_false_eq_true, true_and]
    exact ⟨fun ⟨hst, hkey, r, hr, hkept⟩ => ⟨r, hst, hkey, hr, hkept⟩,
      fun ⟨r, hst, hkey, hr, hkept⟩ => ⟨hst, hkey, r, hr, hkept⟩⟩

/-- A pass of a worker forgets no key that stays configured exactly if it takes every configured key that has an entry and
    a row off the interface, or spares an entry of the key with its row. -/
theorem cleanup_remembers_iff (api : WgApi) (config : AppConfig) (srv : WireGuardServer) (s : WgState) (env : CleanupEnv) :
    Remembered s (databaseCleanup api config (some srv) s env) ↔
      (config.runMode = .worker → ∀ key, (s.iface key).isSome → HasEntryAndRow s key →
        TakesOff env.removePeer (env.listed s.table) s.peers key ∨ env.Spares s key) := by
  by_cases hmode : config.runMode = .worker
  · have hiface : ∀ key, ((databaseCleanup api config (some srv) s env).iface key).isSome ↔
        (s.iface key).isSome ∧ ¬TakesOff env.removePeer (env.listed s.table) s.peers key := by
      intro key
      rw [databaseCleanup_worker hmode]
      exact isSome_removeExpiredPeers_iface
    simp only [Remembered, hiface, hasEntryAndRow_cleanup hmode, and_imp, hmode, true_imp_iff]
    refine forall_congr' fun key => forall_congr' fun _ => ?_
    rw [forall_comm, or_iff_not_imp_left]
  · rw [databaseCleanup, if_neg hmode]
    exact iff_of_true (fun _ _ h => h) fun h => absurd h hmode

end Pass

/-- A worker with one peer, whose lease ends at 100. -/
def leasedOnce : WgState :=
  (allocatePeer .known (Deployment.sample 1).srv .fresh 1 1 100
    ⟨0, "", .replicate 1, .replicate 7, .ok (), .ok (), .ok ()⟩).2

/-- The pass after the end of the lease, with a kernel that refuses to remove the peer. -/
def refusedPass : CleanupEnv := ⟨200, 200, .ok (), fun _ => .error "busy", .ok ()⟩

/-- The key of the refused peer stays configured without an entry and a row. -/
theorem refused_peer_forgotten :
    ¬Remembered leasedOnce (databaseCleanup .known (Deployment.sample 1).config (some (Deployment.sample 1).srv) leasedOnce
      refusedPass) := by
  let key := WgApi.known.x25519 (.replicate 1)
  have hpeers : leasedOnce.peers 1 = some (newPeerState .known (Deployment.sample 1).srv 1 (.replicate 1) (.replicate 7)) :=
    rfl
  have hbefore : HasEntryAndRow leasedOnce key := ⟨1, _, hpeers, Base64.decode_encode key.bytes, rfl⟩
  have hkept : ¬TakesOff refusedPass.removePeer (refusedPass.listed leasedOnce.table) leasedOnce.peers key := by
    rintro ⟨_, _, _, -, -, -, hok⟩
    cases hok
  intro h
  refine absurd (h key ?_ hbefore) fun hafter => ?_
  · rw [databaseCleanup_worker rfl]
    dsimp only
    exact isSome_removeExpiredPeers_iface.mpr ⟨rfl, hkept⟩
  · obtain ⟨id, st, r, -, -, hrow, hspared, hlive⟩ := (hasEntryAndRow_cleanup rfl).mp hafter
    have hexpired : r.expiresAt = 100 := by
      have hone : leasedOnce.table.rows.all fun r => decide (r.expiresAt = 100) := by decide
      exact of_decide_eq_true (List.all_eq_true.mp hone r (Table.get?_eq_some_iff.mp hrow).1)
    have hnow := hlive rfl
    rw [hexpired] at hnow
    cases hnow

end TpnWorker
