import Mathlib.Data.Nat.Notation

/-! The settings that the lease system reads (`src/config.rs`). -/

namespace TpnWorker

inductive RunMode where
  | validator
  | miner
  | worker
deriving DecidableEq, Repr

structure AppConfig where
  runMode : RunMode
  serverPublicHost : String
  miningPoolUrl : String
  wireguardPeerCount : ℕ
  wireguardServerPort : ℕ
  wgSubnet : String
  wgDns : String
  prioritySlots : Int
  ciMockWgContainer : Bool
  ciMockWorkerResponses : Bool
  leaseTokenSecret : String
  tpnInternalSubnet : String
  tpnExternalSubnet : String

namespace AppConfig

/-- The peer count, clamped to the range that a /24 subnet can address. -/
def effectivePeerCount (config : AppConfig) : ℕ := min (max config.wireguardPeerCount 1) 253

def isWorker (config : AppConfig) : Bool := decide (config.runMode = .worker)

theorem effectivePeerCount_pos (config : AppConfig) : 1 ≤ config.effectivePeerCount := by
  simp only [effectivePeerCount]
  omega

theorem effectivePeerCount_le (config : AppConfig) : config.effectivePeerCount ≤ 253 := by
  simp only [effectivePeerCount]
  omega

end AppConfig

/-- A range of peer ids, each of which fits the 16 bits that the server keeps of it. -/
structure PeerRange where
  startId : Int
  endId : Int
  start_nonneg : 0 ≤ startId
  start_le : startId ≤ endId
  end_le : endId ≤ 65535

namespace PeerRange

/-- The ids from which `allocate_wireguard` draws. -/
def ofConfig (config : AppConfig) : PeerRange where
  startId := 1
  endId := config.effectivePeerCount
  start_nonneg := by decide
  start_le := by exact_mod_cast config.effectivePeerCount_pos
  end_le := by
    have := config.effectivePeerCount_le
    omega

theorem one_le_ofConfig (config : AppConfig) : 1 ≤ (ofConfig config).startId := Int.le_refl 1

theorem ofConfig_le (config : AppConfig) : (ofConfig config).endId ≤ 253 := Int.ofNat_le.mpr config.effectivePeerCount_le

def Mem (range : PeerRange) (id : Int) : Prop := range.startId ≤ id ∧ id ≤ range.endId

end PeerRange

end TpnWorker
