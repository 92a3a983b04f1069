import TpnWorker.Lib.Transition
import TpnWorker.Proxy.Credentials

/-! Reloads of the credentials (`reload_from_db` of `src/proxy/credentials.rs`) beside the proxies that authenticate.
    Every operation on the map is one step, and the statements of other requests may change the table at any
    time. A history variable records the answers; no step reads it. -/

namespace TpnWorker
open Keyed Transition

/-- Where a reload stands, by what it does next. -/
inductive LoadPc where
  | idle
  | clearing (configs : List Socks5Config)
  | inserting (config : Socks5Config) (rest : List Socks5Config)
deriving DecidableEq

/-- The insertion loop, with these rows left. -/
def LoadPc.remaining : List Socks5Config → LoadPc
  | [] => .idle
  | config :: rest => .inserting config rest

/-- The rows that the loop has yet to insert. -/
def LoadPc.pending : LoadPc → List Socks5Config
  | .inserting config rest => config :: rest
  | _ => []

structure CredSys where
  table : Socks5Table
  credentials : Credentials
  pc : LoadPc
  answers : List (String × String × Bool)

inductive CredAct where
  | read (rows : Except String Unit)
  | clear
  | insert
  | authenticate (username password : String)
  | commit (table : Socks5Table)

namespace CredSys

def start (table : Socks5Table) (credentials : Credentials) : CredSys := ⟨table, credentials, .idle, []⟩

/-- One step of the reload or of a request beside it; `commit` stands for any statement that another request
    executes. -/
def step (s : CredSys) : CredAct → Option CredSys
  | .read rows =>
    match s.pc with
    | .idle =>
      match rows with
      | .ok () => some { s with pc := .clearing s.table.rows }
      | .error _ => some s
    | _ => none
  | .clear =>
    match s.pc with
    | .clearing configs => some { s with credentials := fun _ => none, pc := .remaining configs }
    | _ => none
  | .insert =>
    match s.pc with
    | .inserting config rest =>
      some { s with credentials := insertCredential s.credentials config, pc := .remaining rest }
    | _ => none
  | .authenticate username password =>
    some { s with answers := (username, password, authenticate s.credentials username password) :: s.answers }
  | .commit table => some { s with table }

end CredSys

/-- The steps of a reload of `n` rows. -/
def CredAct.reload (n : ℕ) : List CredAct := [.read (.ok ()), .clear] ++ List.replicate n .insert

namespace CredStep
variable {s t : CredSys}

theorem read_inv {rows : Except String Unit} (h : s.step (.read rows) = some t) :
    s.pc = .idle ∧ (t = { s with pc := .clearing s.table.rows } ∨ t = s) := by
  simp only [CredSys.step] at h
  split at h
  · next hpc =>
    cases rows with
    | ok => exact ⟨hpc, Or.inl (Option.some.inj h).symm⟩
    | error => exact ⟨hpc, Or.inr (Option.some.inj h).symm⟩
  · cases h

theorem clear_inv (h : s.step .clear = some t) :
    ∃ configs, s.pc = .clearing configs ∧ t = { s with credentials := fun _ => none, pc := .remaining configs } := by
  simp only [CredSys.step] at h
  split at h
  · next configs hpc => exact ⟨configs, hpc, (Option.some.inj h).symm⟩
  · cases h

theorem insert_inv (h : s.step .insert = some t) :
    ∃ config rest, s.pc = .inserting config rest ∧
      t = { s with credentials := insertCredential s.credentials config, pc := .remaining rest } := by
  simp only [CredSys.step] at h
  split at h
  · next config rest hpc => exact ⟨config, rest, hpc, (Option.some.inj h).symm⟩
  · cases h

end CredStep

/-- A reload whose steps follow each other gives the map that the table loads. -/
theorem exec_reload {s : CredSys} (hpc : s.pc = .idle) :
    exec CredSys.step s (CredAct.reload s.table.rows.length) = some { s with credentials := loadFromDb s.table } := by
  have hinserts : ∀ (configs : List Socks5Config) (credentials : Credentials),
      exec CredSys.step { s with credentials, pc := .remaining configs } (.replicate configs.length .insert) =
        some { s with credentials := configs.foldl insertCredential credentials, pc := .idle } := by
    intro configs
    induction configs with
    | nil => exact fun _ => rfl
    | cons config rest ih => exact fun credentials => ih (insertCredential credentials config)
  obtain ⟨table, credentials, _, answers⟩ := s
  subst hpc
  exact hinserts table.rows fun _ => none

end TpnWorker
