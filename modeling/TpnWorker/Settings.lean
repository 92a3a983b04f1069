import Mathlib.Data.List.DropRight
import TpnWorker.Config

/-! The settings of the whole server (`src/config.rs`): those of the lease system, and those that the registration, the
    database start-up and the login read. -/

namespace TpnWorker

structure LoginConfig where
  loginPassword : String
  jwtSecret : String

structure ServerConfig extends AppConfig, LoginConfig where
  serverPort : UInt16
  serverPublicProtocol : String
  serverPublicUrl : String
  paymentAddressEvm : String
  paymentAddressBittensor : String
  ciMode : Bool
  forceDestroyDatabase : Bool

/-- `trim_end_matches('/')` -/
def trimEndSlashes (text : String) : String := String.ofList (text.toList.rdropWhile fun c => decide (c = '/'))

namespace ServerConfig

/-- The base public URL of this node. -/
def baseUrl (config : ServerConfig) : String :=
  if config.serverPublicUrl ≠ "" then trimEndSlashes config.serverPublicUrl
  else s!"{config.serverPublicProtocol}://{config.serverPublicHost}:{config.serverPort}"

/-- The mining pool URL without slashes at its end. -/
def effectiveMiningPoolUrl (config : ServerConfig) : String :=
  let url := trimEndSlashes config.miningPoolUrl
  if url = "" then "http://165.227.133.192:3000" else url

end ServerConfig

end TpnWorker
