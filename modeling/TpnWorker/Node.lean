import TpnWorker.Db.Cleanup
import TpnWorker.Lib.Transition
import TpnWorker.Wireguard.PeerManager

/-! A worker whose WireGuard operations run one after the other. Each operation reads a clock that never
    goes back. -/

namespace TpnWorker

/-- The three stores of the leases, and the last clock reading. -/
structure Node extends WgState where
  clock : Int

/-- A server that was just created, with an empty table. -/
def Node.fresh (clock : Int) : Node := ⟨.fresh, clock⟩

inductive Op where
  | allocate (expiresAt : Int) (env : AllocateEnv)
  | extend (peerId expectedExpiresAt newExpiresAt nowMs : Int) (nowStr : String)
  | cleanup (env : CleanupEnv)

/-- Every kernel and database call of the operation succeeds. -/
def Op.Succeeds : Op → Prop
  | .allocate _ env => env.configurePeer = .ok () ∧ env.storeKeys = .ok () ∧ env.removePeer = .ok ()
  | .extend .. => True
  | .cleanup env => env.expiredPeerIds = .ok () ∧ (∀ id, env.removePeer id = .ok ()) ∧ env.deleteRows = .ok ()

/-- What the operations of one worker share. -/
structure Deployment where
  api : WgApi
  srv : WireGuardServer
  config : AppConfig
  range : PeerRange

namespace Deployment

/-- One operation, run to completion at clock readings that are not before the last one. -/
def run (D : Deployment) (s : Node) : Op → Option Node
  | .allocate expiresAt env =>
    if s.clock ≤ env.purgeMs then
      some ⟨(allocatePeer D.api D.srv s.toWgState D.range.startId D.range.endId expiresAt env).2, env.purgeMs⟩
    else none
  | .extend peerId expected new nowMs nowStr =>
    if s.clock ≤ nowMs then
      some { s with table := (extendWireguardLease s.table peerId expected new nowMs nowStr).2, clock := nowMs }
    else none
  | .cleanup env =>
    if s.clock ≤ env.nowMs ∧ env.nowMs ≤ env.queryMs then
      some ⟨databaseCleanup D.api D.config (some D.srv) s.toWgState env, env.queryMs⟩
    else none

/-- A worker with the given peer count, for runs on fixed inputs. -/
def sample (peerCount : ℕ) : Deployment :=
  let config : AppConfig := ⟨.worker, "203.0.113.7", "", peerCount, 51820, "10.13.13.0", "1.1.1.1", 5, false, false,
    "", "172.20.0.0/16", "172.21.0.0/16"⟩
  { api := .known
    srv := ⟨encodeKey (knownPublicKey (.replicate 3)), 51820, ⟨10, 13, 13, 0⟩, "203.0.113.7", "1.1.1.1"⟩
    config
    range := .ofConfig config }

theorem sample_new (peerCount : ℕ) :
    WireGuardServer.new .known (sample peerCount).config [] (.replicate 3) =
      (.ok (sample peerCount).srv, [generateKeypair .known (.replicate 3)]) := by
  have hsubnet : Ipv4Addr.parse (sample peerCount).config.wgSubnet = some ⟨10, 13, 13, 0⟩ := by
    show Ipv4Addr.parse "10.13.13.0" = _
    decide +kernel
  simp only [WireGuardServer.new, hsubnet]
  rfl

end Deployment

namespace Op

/-- An allocation that draws the secret of 32 bytes `b`. -/
def sampleAllocate (nowMs expiresAt : Int) (b : UInt8) : Op :=
  .allocate expiresAt ⟨nowMs, "", .replicate b, .replicate 7, .ok (), .ok (), .ok ()⟩

def samplePass (nowMs : Int) : Op := .cleanup ⟨nowMs, nowMs, .ok (), fun _ => .ok (), .ok ()⟩

theorem sampleAllocate_succeeds (nowMs expiresAt : Int) (b : UInt8) : (sampleAllocate nowMs expiresAt b).Succeeds :=
  ⟨rfl, rfl, rfl⟩

theorem samplePass_succeeds (nowMs : Int) : (samplePass nowMs).Succeeds := ⟨rfl, fun _ => rfl, rfl⟩

end Op

end TpnWorker
