import TpnWorker.Concurrent.Restarts
import TpnWorker.Installation

/-! A machine on which the worker is started and stopped again and again (`src/main.rs`). The database outlives the processes;
    a process has the settings that it was started with, and the WireGuard server that its start created. -/

namespace TpnWorker

/-- The stores, the server keys in the database, the settings of the process if one runs, and the private key of the
    interface. -/
structure Machine extends Background where
  keys : List WgKeyPair
  running : Option Installation
  interfaceKey : Option String

/-- What a start meets on its WireGuard side: the outcome of the checks of the environment, the secret that it may draw, the
    interface that it finds, the clock and the outcomes of its calls. -/
structure WgStart where
  preflight : Except String Unit
  secret : Key
  iface : Interface
  start : Except String Unit
  nowMs : Int
  rows : Except String Unit
  configurePeer : Int → Except String Unit

def WgStart.sample (nowMs : Int) : WgStart := ⟨.ok (), .replicate 3, .empty, .ok (), nowMs, .ok (), fun _ => .ok ()⟩

inductive MachineAct where
  | background (a : BackgroundAct)
  | start (I : Installation) (wg : WgStart) (dir : Option (List PasswordFile)) (proxies : StartupEnv)
  | stop (iface : Interface)

def WgStart.env (wg : WgStart) (config : AppConfig) : StartEnv :=
  ⟨config, wg.secret, wg.iface, wg.start, wg.nowMs, wg.rows, wg.configurePeer⟩

namespace Machine

/-- A machine on which the worker has never run. -/
def off : Machine := ⟨.blank, [], none, none⟩

/-- The table of the server keys is dropped with the others. -/
def initKeys (config : ServerConfig) (keys : List WgKeyPair) : List WgKeyPair :=
  if config.ciMode || config.forceDestroyDatabase then [] else keys

/-- A start: the database, the WireGuard server and its peers, and the credentials. Without a server the process exits. -/
def start (m : Machine) (I : Installation) (wg : WgStart) (dir : Option (List PasswordFile)) (proxies : StartupEnv) : Machine :=
  let s := m.toBackground.initDatabase I.config
  let keys := initKeys I.config m.keys
  if I.config.isWorker && !I.config.ciMockWgContainer then
    let (pair, _) := loadOrCreateServerKeys I.api keys wg.secret
    match wg.preflight, WireGuardServer.new I.api I.config.toAppConfig keys wg.secret, wg.start with
    | .ok (), (.ok srv, keys), .ok () =>
      let stores := (wg.env I.config.toAppConfig).stores I.api srv s.table
      ⟨m.toBackground.restart I stores dir proxies, keys, some { I with wgServer := some srv }, some pair.privateKey⟩
    | .ok (), (_, keys), _ => ⟨s, keys, none, m.interfaceKey⟩
    | .error _, _, _ => ⟨s, keys, none, m.interfaceKey⟩
  else
    ⟨m.toBackground.restart I ⟨s.table, fun _ => none, wg.iface⟩ dir proxies, keys, some { I with wgServer := none },
      m.interfaceKey⟩

def step (m : Machine) : MachineAct → Option Machine
  | .background a =>
    match m.running with
    | none => none
    | some I => (m.toBackground.step I.toRegistrar a).map fun s => { m with toBackground := s }
  | .start I wg dir proxies => some (m.start I wg dir proxies)
  -- a shutdown removes the interface, and a crash leaves it
  | .stop iface => some { m with toWgState := { m.toWgState with iface }, running := none }

theorem background_inv {m n : Machine} {a : BackgroundAct} (h : m.step (.background a) = some n) :
    ∃ I s, m.running = some I ∧ m.toBackground.step I.toRegistrar a = some s ∧ n = { m with toBackground := s } := by
  simp only [step] at h
  split at h
  · cases h
  · next I hI =>
    obtain ⟨s, hs, rfl⟩ := Option.map_eq_some_iff.mp h
    exact ⟨I, s, hI, hs, rfl⟩

/-- The server keys after a start are those that were there, or those that a server was created with. -/
theorem start_keys (m : Machine) (I : Installation) (wg : WgStart) (dir : Option (List PasswordFile)) (proxies : StartupEnv) :
    let keys := initKeys I.config m.keys
    (m.start I wg dir proxies).keys = keys ∨
      (m.start I wg dir proxies).keys = (loadOrCreateServerKeys I.api keys wg.secret).2 := by
  intro keys
  have hnew : ∀ {result keys'}, WireGuardServer.new I.api I.config.toAppConfig keys wg.secret = (result, keys') →
      keys' = keys ∨ keys' = (loadOrCreateServerKeys I.api keys wg.secret).2 := by
    intro result keys' h
    simp only [WireGuardServer.new] at h
    split at h
    · cases h
      exact Or.inl rfl
    · cases h
      exact Or.inr rfl
  simp only [start]
  split
  · split
    · next h _ => exact hnew h
    · next h _ => exact hnew h
    · exact Or.inl rfl
  · exact Or.inl rfl

/-- A start has a process with a server, or one without it, or none. -/
theorem start_cases (m : Machine) (I : Installation) (wg : WgStart) (dir : Option (List PasswordFile)) (proxies : StartupEnv) :
    let s := m.toBackground.initDatabase I.config
    let keys := initKeys I.config m.keys
    (I.config.isWorker = true ∧ I.config.ciMockWgContainer = false ∧ ∃ srv keys',
        WireGuardServer.new I.api I.config.toAppConfig keys wg.secret = (.ok srv, keys') ∧
        m.start I wg dir proxies =
          ⟨m.toBackground.restart I ((wg.env I.config.toAppConfig).stores I.api srv s.table) dir proxies, keys',
            some { I with wgServer := some srv }, some (loadOrCreateServerKeys I.api keys wg.secret).1.privateKey⟩) ∨
    (∃ keys', m.start I wg dir proxies = ⟨s, keys', none, m.interfaceKey⟩) ∨
    ((I.config.isWorker = false ∨ I.config.ciMockWgContainer = true) ∧
      m.start I wg dir proxies = ⟨m.toBackground.restart I ⟨s.table, fun _ => none, wg.iface⟩ dir proxies, keys,
        some { I with wgServer := none }, m.interfaceKey⟩) := by
  intro s keys
  simp only [start]
  split
  · next hserver =>
    obtain ⟨hworker, hmock⟩ : I.config.isWorker = true ∧ I.config.ciMockWgContainer = false := by simpa using hserver
    split
    · next srv keys' _ hnew _ => exact Or.inl ⟨hworker, hmock, srv, keys', hnew, rfl⟩
    · next keys' _ _ _ => exact Or.inr (Or.inl ⟨keys', rfl⟩)
    · exact Or.inr (Or.inl ⟨keys, rfl⟩)
  · next hserver =>
    have hnone : I.config.isWorker = false ∨ I.config.ciMockWgContainer = true := by
      simpa [Classical.or_iff_not_imp_left] using hserver
    exact Or.inr (Or.inr ⟨hnone, rfl⟩)

end Machine

end TpnWorker
