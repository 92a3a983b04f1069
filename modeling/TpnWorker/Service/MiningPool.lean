import TpnWorker.Db.RegistrationLog
import TpnWorker.Node
import TpnWorker.Service.LeaseManager
import TpnWorker.Settings

/-! Registration with the mining pool (`src/service/mining_pool.rs`), and the loop of `src/main.rs` that repeats it until the
    pool confirms. An attempt leases a configuration of each kind for two minutes and posts them; what the pool answers
    goes into the registration log. -/

namespace TpnWorker

/-- What the code reads of an answer's JSON: two flags and a text, each missing if it has another type. -/
structure PoolBody where
  registered : Option Bool
  success : Option Bool
  error : Option String

/-- An answer of the pool, of which the body may not arrive. -/
structure PoolReply where
  status : UInt16
  bodyText : Except String String

/-- A server that registers: its settings, its WireGuard side, and the JSON parser. -/
structure Registrar where
  api : WgApi
  config : ServerConfig
  wgServer : Option WireGuardServer
  parseBody : String → Except String PoolBody

/-- A worker with the given peer count and no priority slots, whose pool confirms every registration. -/
def Registrar.sample (peerCount : ℕ) : Registrar where
  api := .known
  config := ⟨{ (Deployment.sample peerCount).config with prioritySlots := 0 }, ⟨"", ""⟩, 8080, "http", "", "", "", false, false⟩
  wgServer := some (Deployment.sample peerCount).srv
  parseBody := fun _ => .ok ⟨some true, none, none⟩

/-- What one attempt meets: the probe of the public UDP port, its two leases, the outcome of the HTTP client and of the
    request, and the time and the statements of the log entry. -/
structure RegistrationEnv where
  publicUdpReachable : Bool
  wireguard : LeaseEnv
  socks5 : LeaseEnv
  client : Except String Unit
  reply : Except String PoolReply
  now : String
  inserted : Except String Unit
  trimmed : Except String Unit

/-- What an attempt works on. -/
structure Registering extends Stores where
  log : RegistrationLog

namespace Registrar

def worker (R : Registrar) : Worker := ⟨R.api, R.config.toAppConfig, R.wgServer⟩

/-- The lease of a registration probe. -/
def probe (leaseType : String) : LeaseRequest := ⟨leaseType, 120, false, "text", none, none⟩

/-- The configuration text of a probe; a lease that is refused is only logged. -/
def probeConfig (R : Registrar) (s : Stores) (leaseType : String) (env : LeaseEnv) : Option String × Stores :=
  match getWorkerConfig R.worker s (probe leaseType) env with
  | (.ok lease, s) => (lease.configText, s)
  | (.error _, s) => (none, s)

/-- The WireGuard configuration is left out as long as the public port of a server is not reachable. -/
def wireguardProbe (R : Registrar) (s : Stores) (env : RegistrationEnv) : Option String × Stores :=
  if R.wgServer.isSome ∧ env.publicUdpReachable = false then (none, s) else R.probeConfig s "wireguard" env.wireguard

/-- The registration that is posted to the pool. -/
structure Post where
  query : String
  worker : Json

def post (R : Registrar) (wireguardConfig socks5Config : Option String) : Post where
  query := s!"{R.config.effectiveMiningPoolUrl}/miner/broadcast/worker"
  worker := .obj ([("mining_pool_url", .str R.config.effectiveMiningPoolUrl), ("public_url", .str R.config.baseUrl),
      ("public_port", .num R.config.serverPort.toNat), ("payment_address_evm", .str R.config.paymentAddressEvm),
      ("payment_address_bittensor", .str R.config.paymentAddressBittensor)] ++
    (wireguardConfig.map fun text => ("wireguard_config", Json.str text)).toList ++
    (socks5Config.map fun text => ("socks5_config", Json.str text)).toList)

/-- The flag `registered`, or else `success`. -/
def confirmed (body : PoolBody) : Bool := (body.registered.or body.success).getD false

/-- The answer of the pool, with the log entry that it leaves. -/
def answer (R : Registrar) (env : RegistrationEnv) : Except AppError RegistrationAttempt :=
  match env.reply with
  | .error e => .error (.internal s!"Mining pool registration failed: {e}")
  | .ok reply =>
    match reply.bodyText with
    | .error e => .error (.internal s!"Failed to read mining pool response: {e}")
    | .ok bodyText =>
      match R.parseBody bodyText with
      | .error e => .error (.internal s!"Failed to parse mining pool response: {e}")
      | .ok body =>
        .ok ⟨R.config.effectiveMiningPoolUrl, confirmed body, reply.status, bodyText, body.error.getD "", env.now⟩

/-- Register this worker with the mining pool: the answer, the stores and the log after it, and the request, which is not
    sent without an HTTP client. -/
def registerWithMiningPool (R : Registrar) (s : Registering) (env : RegistrationEnv) :
    Except AppError Bool × Registering × Option Post :=
  let (wireguardConfig, stores) := R.wireguardProbe s.toStores env
  let (socks5Config, stores) := R.probeConfig stores "socks5" env.socks5
  match env.client with
  | .error e => (.error (.internal s!"HTTP client error: {e}"), ⟨stores, s.log⟩, none)
  | .ok () =>
    let post := some (R.post wireguardConfig socks5Config)
    match R.answer env with
    | .error e => (.error e, ⟨stores, s.log⟩, post)
    | .ok attempt => (.ok attempt.success, ⟨stores, insertRegistration env.inserted env.trimmed s.log attempt⟩, post)

end Registrar

end TpnWorker
