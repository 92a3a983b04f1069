import TpnWorker.Theorems.PeerIds
import TpnWorker.Lib.Update
import TpnWorker.Node

/-! What a failed allocation leaves behind. Up to its failure it has reserved a row, configured a key and entered it in
    the map, and each point of failure has its own way back. -/

namespace TpnWorker
open Keyed

section Rollback
variable {api : WgApi} {srv : WireGuardServer} {s s' : WgState} {t table : WgTable} {startId endId expiresAt now k : Int}
  {env : AllocateEnv} {l : WgLease} {nowStr : String} {e : AppError}

end Rollback

end TpnWorker
