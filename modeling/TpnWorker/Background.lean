import TpnWorker.Db.Cleanup
import TpnWorker.Db.Timestamps
import TpnWorker.Lib.Transition
import TpnWorker.Proxy.Credentials
import TpnWorker.Service.MiningPool

/-! What a running worker does beside serving a lease (`src/main.rs`): the registration attempts of the loop at the start,
    the passes of the periodic task, and the lease requests of other clients. This is the worker at one operation at a time:
    each runs to its end before the next begins, with any outcome of the calls that can fail, and a state is one between two
    operations. What the steps of operations that overlap can do is the matter of the modules under `Concurrent`; there
    `Uninterrupted` shows that the steps of a call or a pass alone do what its function does as a whole. -/

namespace TpnWorker

/-- The stores of a worker at work, the registration log, the `timestamps` table and the credentials in memory. -/
structure Background extends Registering where
  timestamps : TimestampTable
  credentials : Credentials

/-- Two free SOCKS5 slots, and nothing else. -/
def Background.fresh : Background := ⟨⟨⟨.fresh, .sample⟩, ⟨.empty, 0⟩⟩, .empty, loadFromDb .sample⟩

/-- What one pass of the periodic task meets. -/
structure DaemonEnv where
  cleanup : CleanupEnv
  timestamps : Except String Unit
  reload : Except String Unit
  registration : RegistrationEnv

inductive BackgroundAct where
  | request (req : LeaseRequest) (env : LeaseEnv)
  | attempt (env : RegistrationEnv)
  | daemon (env : DaemonEnv)

namespace Background

/-- A lease request that passed the endpoint. -/
def request (R : Registrar) (s : Background) (req : LeaseRequest) (env : LeaseEnv) : Background :=
  { s with toStores := (getWorkerConfig R.worker s.toStores req env).2 }

def attempt (R : Registrar) (s : Background) (env : RegistrationEnv) : Background :=
  { s with toRegistering := (R.registerWithMiningPool s.toRegistering env).2.1 }

/-- `database_cleanup` of all tables. -/
def cleanup (R : Registrar) (s : Background) (env : DaemonEnv) : Background :=
  { s with
    toWgState := databaseCleanup R.api R.config.toAppConfig R.wgServer s.toWgState env.cleanup
    timestamps := cleanupTimestamps s.timestamps env.cleanup.nowMs env.timestamps }

/-- `reload_from_db`, with the map that it leaves: nothing happens when the query fails. -/
def reload (s : Background) (rows : Except String Unit) : Background :=
  match rows with
  | .ok () => { s with credentials := loadFromDb s.socks }
  | .error _ => s

/-- One pass of the periodic task: the cleanup, the reload of the credentials and, on a worker, a registration. -/
def daemon (R : Registrar) (s : Background) (env : DaemonEnv) : Background :=
  let s := (s.cleanup R env).reload env.reload
  if R.config.isWorker then s.attempt R env.registration else s

def step (R : Registrar) (s : Background) : BackgroundAct → Option Background
  | .request req env => some (s.request R req env)
  | .attempt env => some (s.attempt R env)
  | .daemon env => some (s.daemon R env)

end Background

/-! ### Clock readings and drawn keys -/

/-- The clock readings that the lease operations compare with an expiry. -/
def LeaseEnv.readings (env : LeaseEnv) : List Int := [env.updateMs, env.allocate.purgeMs, env.cleanupMs, env.socks.cleanupMs]

def RegistrationEnv.leases (env : RegistrationEnv) : List LeaseEnv := [env.wireguard, env.socks5]

/-- The leases that an operation may allocate. -/
def BackgroundAct.leases : BackgroundAct → List LeaseEnv
  | request _ env => [env]
  | attempt env => env.leases
  | daemon env => env.registration.leases

def BackgroundAct.readings : BackgroundAct → List Int
  | request _ env => env.readings
  | attempt env => env.leases.flatMap LeaseEnv.readings
  | daemon env => [env.cleanup.nowMs, env.cleanup.queryMs] ++ env.registration.leases.flatMap LeaseEnv.readings

/-- A request that the worker makes for itself, or serves for a client, under this environment. -/
def BackgroundAct.Requests (a : BackgroundAct) (req : LeaseRequest) (env : LeaseEnv) : Prop :=
  a = .request req env ∨ env ∈ a.leases ∧ req.extendRef = none

section Rule
variable {R : Registrar} {P : Stores → Prop} {s t : Background} {a : BackgroundAct}

theorem Registrar.probeConfig_snd (R : Registrar) (s : Stores) (leaseType : String) (env : LeaseEnv) :
    (R.probeConfig s leaseType env).2 = (getWorkerConfig R.worker s (Registrar.probe leaseType) env).2 := by
  unfold Registrar.probeConfig
  split <;> next h => rw [h]

theorem Registrar.registerWithMiningPool_stores (R : Registrar) (s : Registering) (env : RegistrationEnv) :
    (R.registerWithMiningPool s env).2.1.toStores =
      (R.probeConfig (R.wireguardProbe s.toStores env).2 "socks5" env.socks5).2 := by
  simp only [Registrar.registerWithMiningPool]
  split
  · rfl
  · split <;> rfl

/-- What every lease request keeps, a registration attempt keeps. -/
theorem Background.keeps_attempt {env : RegistrationEnv}
    (hrequest : ∀ req env' stores, env' ∈ env.leases → req.extendRef = none → P stores →
      P (getWorkerConfig R.worker stores req env').2) (hP : P s.toStores) : P (s.attempt R env).toStores := by
  have hwireguard : P (R.wireguardProbe s.toStores env).2 := by
    unfold Registrar.wireguardProbe
    split
    · exact hP
    · rw [Registrar.probeConfig_snd]
      exact hrequest _ _ _ (by simp [RegistrationEnv.leases]) rfl hP
  show P (R.registerWithMiningPool s.toRegistering env).2.1.toStores
  rw [Registrar.registerWithMiningPool_stores, Registrar.probeConfig_snd]
  exact hrequest _ _ _ (by simp [RegistrationEnv.leases]) rfl hwireguard

@[simp] theorem Background.reload_toRegistering (s : Background) (rows : Except String Unit) :
    (s.reload rows).toRegistering = s.toRegistering := by
  unfold Background.reload
  split <;> rfl

/-- The rule for what lease requests and cleanup passes keep: every operation keeps it. -/
theorem Background.keeps_step
    (hrequest : ∀ req env stores, a.Requests req env → P stores → P (getWorkerConfig R.worker stores req env).2)
    (hcleanup : ∀ env stores, a = .daemon env → P stores →
      P { stores with
          toWgState := databaseCleanup R.api R.config.toAppConfig R.wgServer stores.toWgState env.cleanup })
    (hP : P s.toStores) (h : s.step R a = some t) : P t.toStores := by
  cases a with
  | request req env =>
    cases h
    exact hrequest req env _ (Or.inl rfl) hP
  | attempt env =>
    cases h
    exact keeps_attempt (fun req env' stores henv href => hrequest req env' stores (Or.inr ⟨henv, href⟩)) hP
  | daemon env =>
    cases h
    have hcleaned : P ((s.cleanup R env).reload env.reload).toStores := by
      rw [reload_toRegistering]
      exact hcleanup env _ rfl hP
    unfold Background.daemon
    dsimp only
    split
    · exact keeps_attempt (fun req env' stores henv href => hrequest req env' stores (Or.inr ⟨henv, href⟩)) hcleaned
    · exact hcleaned

/-- The credentials after an operation are those before it, or what the table loads then. -/
theorem Background.credentials_step (h : s.step R a = some t) :
    t.credentials = s.credentials ∨ t.credentials = loadFromDb s.socks := by
  cases a with
  | request req env =>
    cases h
    exact Or.inl rfl
  | attempt env =>
    cases h
    exact Or.inl rfl
  | daemon env =>
    cases h
    have hreloaded : ((s.cleanup R env).reload env.reload).credentials = s.credentials ∨
        ((s.cleanup R env).reload env.reload).credentials = loadFromDb s.socks := by
      unfold Background.reload
      split
      · exact Or.inr rfl
      · exact Or.inl rfl
    unfold Background.daemon
    dsimp only
    split <;> exact hreloaded

end Rule

end TpnWorker
