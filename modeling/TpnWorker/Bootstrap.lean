import Mathlib.Logic.Function.Basic
import TpnWorker.Api.Admin

/-! The start of the program up to its configuration (`src/main.rs`): the `.env` file is loaded into the environment, the
    remote defaults are set on top of it, and the configuration is parsed from what is there then. -/

namespace TpnWorker
open Lines

/-- The environment of the process. -/
abbrev Env := String → Option String

/-- Set the variables one after the other. -/
def setVars (env : Env) (vars : List (String × String)) : Env :=
  vars.foldl (fun env a => Function.update env a.1 (some a.2)) env

/-- The value that an assignment gives to the variable, if it is one of it. -/
def valueFor (name : String) (a : String × String) : Option String := if a.1 = name then some a.2 else none

/-- The last value of a variable in a list of assignments. -/
def lastValue (vars : List (String × String)) (name : String) : Option String := (vars.filterMap (valueFor name)).getLast?

/-- The name has letters, digits and underscores only. -/
def EnvKey.Plain (key : EnvKey) : Prop := ∀ c ∈ key.name.toList, c.isAlphanum = true ∨ c = '_'

/-- What `dotenvy` reads on a line: a variable and its value, if the line assigns one. Blank lines and comments assign none,
    and `KEY=..` assigns no other variable than `KEY`. At a line that it can not parse `dotenvy` stops, so this is about
    files that it reads to their end. -/
structure Dotenv where
  assigns : List Char → Option (String × String)
  blank : assigns [] = none
  cr : ∀ line, assigns (stripCr line) = assigns line
  own : ∀ (key : EnvKey) (line : List Char) (name value : String), key.Plain → key.onLine line = true →
    assigns line = some (name, value) → name = key.name

/-- Load the `.env` file over the environment, then set the default of `SQLITE_PATH`. -/
def loadEnv (D : Dotenv) (dir : String) (env : Env) (content : String) : Env :=
  let env := setVars env ((lines content.toList).filterMap D.assigns)
  if (env "SQLITE_PATH").isNone then Function.update env "SQLITE_PATH" (some (dir ++ "/tpn-worker.db")) else env

/-- The settings that are managed centrally. -/
inductive RemoteKey where
  | miningPoolUrl
  | paymentAddressEvm
  | paymentAddressBittensor
deriving DecidableEq

namespace RemoteKey

def key : RemoteKey → EnvKey
  | miningPoolUrl => .miningPoolUrl
  | paymentAddressEvm => .paymentAddressEvm
  | paymentAddressBittensor => .paymentAddressBittensor

/-- `default_value` -/
def default : RemoteKey → String
  | miningPoolUrl => "http://157.90.237.67:3000"
  | paymentAddressEvm => "0x1c89cb81123903Af1ecbbf3Edd688EfEDE119e12"
  | paymentAddressBittensor => "5EtYnZcY1UFbkwCp3HL5W3bxZCJshKtYVcTsWtB9QUtPTXxA"

/-- What a request to `/api/config/update` asks for. -/
def requested (req : ConfigUpdateRequest) : RemoteKey → Option String
  | miningPoolUrl => req.miningPoolUrl
  | paymentAddressEvm => req.paymentAddressEvm
  | paymentAddressBittensor => req.paymentAddressBittensor

end RemoteKey

def remoteEnvKeys : List String :=
  [EnvKey.miningPoolUrl.name, EnvKey.paymentAddressEvm.name, EnvKey.paymentAddressBittensor.name]

/-- What a line of the remote body sets. -/
def remoteAssignment (line : List Char) : Option (String × String) :=
  let line := trim line
  if line = [] ∨ line.head? = some '#' then none
  else
    match splitOnce '=' line with
    | none => none
    | some (key, value) =>
      let key := String.ofList (trim key)
      let value := trim value
      if key ∈ remoteEnvKeys ∧ value ≠ [] then some (key, String.ofList value) else none

/-- Set the remote defaults; `none` when the body could not be fetched. -/
def fetchRemoteDefaults (env : Env) : Option String → Env
  | none => env
  | some body => setVars env ((lines body.toList).filterMap remoteAssignment)

/-- The part of the configuration that the remote defaults concern. -/
def configured (env : Env) (k : RemoteKey) : String := (env k.key.name).getD k.default

/-- The configuration after a start: `load_env`, then `fetch_remote_defaults`, then the parse. -/
def startConfig (D : Dotenv) (dir : String) (env : Env) (content : String) (body : Option String) (k : RemoteKey) : String :=
  configured (fetchRemoteDefaults (loadEnv D dir env content) body) k

theorem setVars_apply (env : Env) (vars : List (String × String)) (name : String) :
    setVars env vars name = (lastValue vars name).or (env name) := by
  induction vars generalizing env with
  | nil => rfl
  | cons a vars ih =>
    have hstep : setVars env (a :: vars) = setVars (Function.update env a.1 (some a.2)) vars := rfl
    rw [hstep, ih]
    by_cases hname : a.1 = name
    · have hvalue : valueFor name a = some a.2 := if_pos hname
      have hlast : lastValue (a :: vars) name = (lastValue vars name).or (some a.2) := by
        rw [lastValue, lastValue, List.filterMap_cons_some hvalue, List.getLast?_cons]
        cases (vars.filterMap (valueFor name)).getLast? <;> rfl
      rw [hlast, Option.or_assoc, hname, Function.update_self]
      rfl
    · have hvalue : valueFor name a = none := if_neg hname
      rw [lastValue, lastValue, List.filterMap_cons_none hvalue, Function.update_of_ne (Ne.symm hname)]

end TpnWorker
