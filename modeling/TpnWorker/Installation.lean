import TpnWorker.Background
import TpnWorker.Proxy.Initialize

/-! A worker over its starts (`src/main.rs`, `src/db/init.rs`). Every start prepares the database and initializes the
    credential store over the slots that the last run left; when that fails, the worker runs on with what it has. -/

namespace TpnWorker
open Keyed

/-- A worker with the settings of its proxies. -/
structure Installation extends Registrar where
  socks5Port : UInt16
  proxyCredentialCount : ℕ

def Installation.sample : Installation := ⟨.sample 2, 1080, 2⟩

/-- A worker that keeps its database over a start. -/
structure Installation.Keeps (I : Installation) : Prop where
  isWorker : I.config.isWorker = true
  ciMode : I.config.ciMode = false
  forceDestroyDatabase : I.config.forceDestroyDatabase = false

/-- The credential manager of a start. -/
def Installation.manager (I : Installation) : CredentialManager :=
  .new I.config.serverPublicHost I.socks5Port I.proxyCredentialCount

def Socks5Table.empty : Socks5Table := ⟨.empty, .nil⟩

/-- What happens to a worker that is started again and again. On its WireGuard side a start leaves any state. -/
inductive LifeAct where
  | background (a : BackgroundAct)
  | restart (wg : WgState) (dir : Option (List PasswordFile)) (env : StartupEnv)

namespace Background

/-- Nothing but empty tables. -/
def blank : Background := ⟨⟨⟨.fresh, .empty⟩, ⟨.empty, 0⟩⟩, .empty, fun _ => none⟩

/-- `init_database`: the tables are dropped first if the settings ask for it. The index of the slots is there already. -/
def initDatabase (config : ServerConfig) (s : Background) : Background :=
  if config.ciMode || config.forceDestroyDatabase then { blank with peers := s.peers, iface := s.iface, credentials := s.credentials }
  else s

/-- A start, with an empty map of credentials that a worker initializes. -/
def restart (I : Installation) (s : Background) (wg : WgState) (dir : Option (List PasswordFile)) (env : StartupEnv) : Background :=
  let s := s.initDatabase I.config
  if I.config.isWorker then
    let (_, credentials, socks) := I.manager.initializeStore s.socks dir env
    { s with toWgState := wg, socks := socks, credentials := credentials }
  else { s with toWgState := wg, credentials := I.manager.credentials }

def live (I : Installation) (s : Background) : LifeAct → Option Background
  | .background a => s.step I.toRegistrar a
  | .restart wg dir env => some (s.restart I wg dir env)

end Background

theorem Installation.Keeps.initDatabase {I : Installation} (hkeeps : I.Keeps) (s : Background) : s.initDatabase I.config = s := by
  simp only [Background.initDatabase, hkeeps.ciMode, hkeeps.forceDestroyDatabase, Bool.or_false, Bool.false_eq_true, if_false]

structure StartupEnv.Succeeds (env : StartupEnv) : Prop where
  select : env.select = .ok ()
  write : env.write.fault = none
  sync : env.sync = .ok ()

/-- A start that finds no legacy password files, and whose statements succeed. -/
def LifeAct.Starts : LifeAct → Prop
  | .background _ => True
  | .restart _ dir env => hasPasswordFiles dir env.scanned = false ∧ env.Succeeds

/-! ### The logins of the slots -/

/-- What a client needs of a slot. -/
structure SlotLogin where
  username : String
  password : String
  ipAddress : String
  port : Int
deriving DecidableEq

def Socks5Config.login (r : Socks5Config) : SlotLogin := ⟨r.username, r.password, r.ipAddress, r.port⟩

def Socks5Table.logins (t : Socks5Table) : List SlotLogin := t.rows.map Socks5Config.login

namespace Socks5Table
variable {t t' : Socks5Table} {p : Socks5Config → Bool} {u : Socks5Update}

theorem logins_updateWhere (hu : ∀ r, (u.set r).login = r.login) : (t.updateWhere p u).logins = t.logins :=
  Table.map_updateWhere u.id_set hu

theorem loadFromDb_of_logins (h : t'.logins = t.logins) : loadFromDb t' = loadFromDb t := by
  have hfold : ∀ t : Socks5Table, loadFromDb t =
      t.logins.foldl (fun (credentials : Credentials) l => Function.update credentials l.username (some l.password))
        fun _ => none := by
    intro t
    rw [logins, List.foldl_map]
    rfl
  rw [hfold, hfold, h]

theorem logins_cleanup (nowMs : Int) : (cleanupExpiredSocks5Configs t nowMs).2.logins = t.logins := logins_updateWhere fun _ => rfl

theorem logins_extendSocks5Lease (username : String) (expected new nowMs : Int) :
    (extendSocks5Lease t username expected new nowMs).2.logins = t.logins := by
  have hupdate : (extendSocks5Lease t username expected new nowMs).2 =
      t.updateWhere (socks5ExtensionMatches username expected nowMs) (extendedTo new nowMs) := by
    unfold extendSocks5Lease
    dsimp only
    split <;> rfl
  rw [hupdate]
  exact logins_updateWhere fun _ => rfl

theorem logins_getSocks5Config {expiresAt slots : Int} {priority : Bool} {env : Socks5Env} :
    (getSocks5Config t expiresAt priority slots env).2.logins = t.logins := by
  have hmark : ∀ (t : Socks5Table) (config : Socks5Config), (markUnavailable t config expiresAt env.nowMs).logins = t.logins :=
    fun _ _ => logins_updateWhere fun _ => rfl
  simp only [getSocks5Config]
  split
  · simp only [getSocks5ConfigPriority]
    split
    · rfl
    · exact logins_updateWhere fun _ => rfl
  · simp only [getSocks5ConfigNonPriority]
    split
    · exact hmark _ _
    · split
      · rw [hmark, logins_cleanup]
      · exact logins_cleanup _

end Socks5Table

end TpnWorker
