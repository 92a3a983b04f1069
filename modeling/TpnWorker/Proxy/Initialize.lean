import Mathlib.Data.List.Induction
import TpnWorker.Net.Ip
import TpnWorker.Proxy.Credentials

/-! The start-up of the credential store (`initialize` of `src/proxy/credentials.rs`). Password files are imported if
    there are any; otherwise the rows of the table are loaded, and an empty table gets fresh credentials. -/

namespace TpnWorker

def endsWith (text tail : String) : Bool := tail.toList.isSuffixOf text.toList

/-- `trim_end_matches`, for a text of at most `fuel` characters: every repetition of the suffix goes. -/
def trimEndMatches (tail : List Char) : (fuel : ℕ) → List Char → List Char
  | 0, text => text
  | fuel + 1, text =>
    if tail.isSuffixOf text then trimEndMatches tail fuel (text.take (text.length - tail.length)) else text

/-- A file of the password directory: its name, and its text if it can be read. -/
structure PasswordFile where
  name : String
  content : Option String

namespace PasswordFile

def isUsed (f : PasswordFile) : Bool := endsWith f.name ".password.used"

def isPassword (f : PasswordFile) : Bool := endsWith f.name ".password"

def username (f : PasswordFile) : String :=
  String.ofList (trimEndMatches ".password".toList f.name.toList.length f.name.toList)

def password (f : PasswordFile) : String := String.ofList (trim (f.content.getD "").toList)

end PasswordFile

/-- The manager of the credentials with its settings. -/
structure CredentialManager where
  credentials : Credentials
  host : String
  port : UInt16
  totalSlots : ℕ

def CredentialManager.new (host : String) (port : UInt16) (totalSlots : ℕ) : CredentialManager :=
  ⟨fun _ => none, host, port, totalSlots⟩

/-- What one call meets: how many entries the first listing of the directory yields before it ends or fails, the
    outcomes of the second listing and of the statements, and the drawn characters. -/
structure StartupEnv where
  scanned : ℕ
  listing : Except String Unit
  select : Except String Unit
  write : WriteEnv
  sync : Except String Unit
  usernames : ℕ → ℕ → Fin 36
  passwords : ℕ → ℕ → Fin 62

/-- A call that succeeds at 0 and draws the first character every time. -/
def StartupEnv.sample : StartupEnv := ⟨100, .ok (), .ok (), ⟨0, 0, none⟩, .ok (), fun _ _ => 0, fun _ _ => 0⟩

/-- The legacy password files that the first listing finds. -/
def hasPasswordFiles (dir : Option (List PasswordFile)) (scanned : ℕ) : Bool :=
  match dir with
  | some files => (files.take scanned).any fun f => f.isPassword && !f.isUsed
  | none => false

/-- `u_` and 8 drawn characters. -/
def generateUsername (draw : ℕ → Fin 36) : String :=
  "u_" ++ String.ofList ((List.range 8).map fun i =>
    let idx := (draw i).val
    if idx < 10 then Char.ofNat (48 + idx) else Char.ofNat (97 + idx - 10))

/-- `p_` and 32 drawn characters. -/
def generatePassword (draw : ℕ → Fin 62) : String :=
  "p_" ++ String.ofList ((List.range 32).map fun i =>
    let idx := (draw i).val
    if idx < 10 then Char.ofNat (48 + idx)
    else if idx < 36 then Char.ofNat (65 + idx - 10)
    else Char.ofNat (97 + idx - 36))

/-- A file whose name says that its password was handed out. -/
def marked (files : List PasswordFile) (f : PasswordFile) : Bool :=
  (files.filter (·.isUsed)).any fun used => used.name == f.name ++ ".used"

/-- The password files that are not empty. -/
def importedFiles (files : List PasswordFile) : List PasswordFile :=
  (files.filter fun f => !f.isUsed && f.isPassword).filter fun f => f.password ≠ ""

namespace CredentialManager

def importedConfig (m : CredentialManager) (files : List PasswordFile) (f : PasswordFile) : Socks5Config :=
  ⟨0, m.host, m.port.toNat, f.username, f.password, !marked files f, 0, 0⟩

/-- Write a batch to the table, then enter it in the map. -/
def store (m : CredentialManager) (t : Socks5Table) (socks : List Socks5Config) (env : WriteEnv) :
    Except AppError Unit × Credentials × Socks5Table :=
  match writeSocks t socks env with
  | (.error e, t) => (.error e, m.credentials, t)
  | (.ok (), t) => (.ok (), socks.foldl insertCredential m.credentials, t)

/-- Migrate credentials from password files. -/
def migrateFromPasswordFiles (m : CredentialManager) (t : Socks5Table) (files : List PasswordFile) (env : StartupEnv) :
    Except AppError Unit × Credentials × Socks5Table :=
  match env.listing with
  | .error e => (.error (.io e), m.credentials, t)
  | .ok () => m.store t ((importedFiles files).map (m.importedConfig files)) env.write

/-- Generate fresh credentials and write them to the table. -/
def generateCredentials (m : CredentialManager) (t : Socks5Table) (env : StartupEnv) :
    Except AppError Unit × Credentials × Socks5Table :=
  m.store t ((List.range m.totalSlots).map fun i => ⟨0, m.host, m.port.toNat, generateUsername (env.usernames i),
    generatePassword (env.passwords i), true, 0, 0⟩) env.write

/-- Load the credentials from the table, or generate them if it is empty. -/
def loadOrGenerate (m : CredentialManager) (t : Socks5Table) (env : StartupEnv) :
    Except AppError Unit × Credentials × Socks5Table :=
  match env.select with
  | .error e => (.error (.db e), m.credentials, t)
  | .ok () =>
    let loaded := { m with credentials := loadFromDb t }
    if t.rows.length = 0 then loaded.generateCredentials t env else (.ok (), loaded.credentials, t)

/-- Set host and port of every row to the configured ones. -/
def syncHostPort (m : CredentialManager) (t : Socks5Table) : Socks5Table :=
  t.updateWhere (fun r => decide (r.ipAddress ≠ m.host ∨ r.port ≠ m.port.toNat))
    { set := fun r => { r with ipAddress := m.host, port := m.port.toNat } }

/-- Initialize the credential store, with the map and the table afterwards. A directory that exists is one that can be
    listed. -/
def initializeStore (m : CredentialManager) (t : Socks5Table) (dir : Option (List PasswordFile)) (env : StartupEnv) :
    Except AppError Unit × Credentials × Socks5Table :=
  match
    if hasPasswordFiles dir env.scanned then m.migrateFromPasswordFiles t (dir.getD []) env
    else m.loadOrGenerate t env with
  | (.error e, credentials, t) => (.error e, credentials, t)
  | (.ok (), credentials, t) =>
    match env.sync with
    | .error e => (.error (.db e), credentials, t)
    | .ok () => (.ok (), credentials, m.syncHostPort t)

end CredentialManager

/-! ### What a batch leaves in the table -/

section Batch
variable {env : WriteEnv} {nowMs sequence : Int} {t t' : Socks5Table} {sock : Socks5Config} {socks : List Socks5Config}
  {username : String}

/-- An upsert sets in the table what an insertion sets in the map. -/
theorem loadFromDb_upsertSock :
    loadFromDb (upsertSock nowMs sequence t sock) = insertCredential (loadFromDb t) sock := by
  funext username
  rw [loadFromDb_apply, Socks5Table.read_upsertSock, insertCredential, Function.update_apply]
  split
  · cases readSocks5ConfigByUsername t username <;> rfl
  · rw [loadFromDb_apply]

theorem loadFromDb_upsertSocks :
    loadFromDb (upsertSocks nowMs sequence t socks) = socks.foldl insertCredential (loadFromDb t) := by
  induction socks generalizing t sequence with
  | nil => rfl
  | cons sock socks ih => rw [upsertSocks, ih, loadFromDb_upsertSock, List.foldl_cons]

/-- Of the configs of one user the last one counts. -/
theorem foldl_insertCredential_reverse (socks : List Socks5Config) (credentials : Credentials) :
    socks.foldl insertCredential credentials username =
      ((socks.reverse.find? fun sock => decide (sock.username = username)).map (·.password)).or
        (credentials username) := by
  induction socks using List.reverseRecOn with
  | nil => rfl
  | append_singleton socks sock ih =>
    rw [List.foldl_append, List.foldl_cons, List.foldl_nil, insertCredential, Function.update_apply,
      List.reverse_append, List.reverse_singleton, List.singleton_append, List.find?_cons]
    by_cases hname : username = sock.username
    · rw [if_pos hname, decide_eq_true hname.symm]
      rfl
    · rw [if_neg hname, decide_eq_false (Ne.symm hname), ih]

/-- What a map has of the users of a batch does not depend on what it had before. -/
theorem foldl_insertCredential_none (socks : List Socks5Config) (credentials : Credentials) :
    socks.foldl insertCredential (fun _ => none) username =
      if username ∈ socks.map (·.username) then socks.foldl insertCredential credentials username else none := by
  rw [foldl_insertCredential_reverse, foldl_insertCredential_reverse, Option.or_none]
  cases hfind : socks.reverse.find? fun sock => decide (sock.username = username) with
  | none =>
    rw [if_neg, Option.map_none]
    rw [List.find?_eq_none] at hfind
    rintro hmem
    obtain ⟨sock, hsock, hname⟩ := List.mem_map.mp hmem
    exact hfind sock (List.mem_reverse.mpr hsock) (decide_eq_true hname)
  | some sock =>
    have hmem := List.mem_reverse.mp (List.mem_of_find?_eq_some hfind)
    have hname : sock.username = username := by simpa using List.find?_some hfind
    rw [if_pos (List.mem_map.mpr ⟨sock, hmem, hname⟩)]
    rfl

/-- A batch that was written loads as it was inserted into an empty map. -/
theorem loadFromDb_writeSocks (hne : socks ≠ []) (h : writeSocks t socks env = (.ok (), t')) :
    loadFromDb t' = socks.foldl insertCredential fun _ => none := by
  rw [writeSocks, if_neg hne] at h
  split at h
  · cases h
  · cases h
    funext username
    rw [loadFromDb_apply, Socks5Table.read_deleteOthers, foldl_insertCredential_none _ (loadFromDb t)]
    split
    · rw [← loadFromDb_apply, loadFromDb_upsertSocks]
    · rfl

/-- The columns that an upsert leaves alone. -/
def Socks5Table.flags (t : Socks5Table) (username : String) : Option (Bool × Int) :=
  (readSocks5ConfigByUsername t username).map fun r => (r.available, r.expiresAt)

/-- A user has the flags of its row or, if it has none, of its first config in the batch. -/
theorem flags_upsertSocks : (upsertSocks nowMs sequence t socks).flags username =
    (t.flags username).or ((socks.find? fun sock => decide (sock.username = username)).map fun sock =>
      (sock.available, sock.expiresAt)) :=
  Socks5Table.map_read_upsertSocks (fun _ _ _ => rfl) fun _ _ _ => rfl

end Batch

end TpnWorker
