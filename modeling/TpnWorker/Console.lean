import TpnWorker.Api.Auth
import TpnWorker.Bootstrap

/-! The admin interface of a worker over its starts: the `.env` file, the login settings in force, and the tokens that were
    issued. Any client may send any request; whoever starts the program may do so in any environment with the same `HOME`,
    under which the file is found, by a start as by an update. -/

namespace TpnWorker

/-- What the login and the start take from outside: the token crate, the `.env` reader, and the home directory. -/
structure Setup where
  jwt : Jwt
  dotenv : Dotenv
  home : String

/-- The directory in which `config_dir` looks for the configuration. -/
def homeDir (env : Env) : String := (env "HOME").getD "/root"

def Setup.dir (P : Setup) : String := P.home ++ "/.config/tpn-worker"

/-- The login settings of a start. A secret that is missing is drawn. -/
def loginConfig (env : Env) (drawn : String) : LoginConfig where
  loginPassword := (env "LOGIN_PASSWORD").getD ""
  jwtSecret :=
    let secret := (env "JWT_SECRET").getD ""
    if secret = "" then drawn else secret

/-- A login that was granted: the token, the secret in force and the time. -/
structure Login where
  token : String
  secret : String
  time : ℕ

structure Console where
  content : String
  config : LoginConfig
  clock : ℕ
  logins : List Login

inductive ConsoleAct where
  | tick (now : ℕ)
  | login (password : String)
  | updatePassword (auth : AuthRequest) (io : EnvKey → Except EnvFault Unit) (password : String)
  | updateConfig (auth : AuthRequest) (io : EnvKey → Except EnvFault Unit) (req : ConfigUpdateRequest)
  | restart (env : Env) (body : Option String) (drawn : String)

/-- What a protected request carries. -/
def ConsoleAct.auth? : ConsoleAct → Option AuthRequest
  | updatePassword auth .. => some auth
  | updateConfig auth .. => some auth
  | _ => none

namespace Console

/-- A handler behind the middleware, which works on the file. -/
def guarded (P : Setup) (s : Console) (auth : AuthRequest) (handler : String → AdminResponse × String) : Console :=
  match authMiddleware P.jwt s.config s.clock auth with
  | .ok () => { s with content := (handler s.content).2 }
  | .error _ => s

def step (P : Setup) (s : Console) : ConsoleAct → Option Console
  | .tick now => if s.clock ≤ now then some { s with clock := now } else none
  | .login password =>
    match (s.config.login P.jwt s.clock password).token with
    | some token => some { s with logins := ⟨token, s.config.jwtSecret, s.clock⟩ :: s.logins }
    | none => some s
  | .updatePassword auth io password => some (s.guarded P auth fun content => updatePassword io content password)
  | .updateConfig auth io req => some (s.guarded P auth fun content => updateConfig io content req)
  | .restart env body drawn =>
    if homeDir env = P.home then
      some { s with config := loginConfig (fetchRemoteDefaults (loadEnv P.dotenv P.dir env s.content) body) drawn }
    else none

/-- A token of the request that verifies was issued under the secret in force. -/
def Unforged (P : Setup) (s : Console) (auth : AuthRequest) : Prop :=
  ∀ token, auth.Presents token → verifyToken P.jwt s.clock token s.config.jwtSecret = true →
    ∃ login ∈ s.logins, login.token = token ∧ login.secret = s.config.jwtSecret

end Console

end TpnWorker
