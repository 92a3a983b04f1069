import TpnWorker.Concurrent.Socks5
import TpnWorker.Lib.Transition
import TpnWorker.Proxy.Initialize

/-! The credentials after start-up. The map and the table get the same batch, unless the batch is empty: then the rows
    stay, and the map does not load them. A file that is marked as used takes its slot without an expiry, so no
    cleanup releases it. -/

namespace TpnWorker
open Keyed Transition

section Memory
variable {m : CredentialManager} {t t' : Socks5Table} {dir : Option (List PasswordFile)} {env : StartupEnv}
  {credentials : Credentials}

/-- There are password files to migrate and all of them are empty, while the table has rows. -/
def NothingImported (t : Socks5Table) (dir : Option (List PasswordFile)) (env : StartupEnv) : Prop :=
  hasPasswordFiles dir env.scanned = true ∧ importedFiles (dir.getD []) = [] ∧ t.rows ≠ []

/-- The pairs that a map accepts are the rows of the table. -/
def Agrees (credentials : Credentials) (t : Socks5Table) : Prop :=
  ∀ u p, authenticate credentials u p = true ↔ t.Has u p

theorem agrees_iff : Agrees credentials t ↔ credentials = loadFromDb t := by
  simp only [Agrees, authenticate_iff, Socks5Table.has_iff]
  constructor
  · exact fun h => funext fun u => Option.ext fun p => h u p
  · rintro rfl u p
    exact Iff.rfl

theorem loadFromDb_of_rows_nil (h : t.rows = []) : loadFromDb t = fun _ => none := by rw [loadFromDb, h, List.foldl_nil]

theorem loadFromDb_ne_of_rows (h : t.rows ≠ []) : loadFromDb t ≠ fun _ => none := by
  obtain ⟨r, hr⟩ := List.exists_mem_of_ne_nil _ h
  intro hload
  have hname := congrFun hload r.username
  rw [loadFromDb_apply, Socks5Table.read_eq_some_iff.mpr ⟨hr, rfl⟩] at hname
  cases hname

/-- A batch that is stored through an empty map. -/
theorem store_ok {socks : List Socks5Config} {write : WriteEnv} (hnew : m.credentials = fun _ => none)
    (h : m.store t socks write = (.ok (), credentials, t')) :
    (socks = [] ∧ t' = t ∧ credentials = fun _ => none) ∨ socks ≠ [] ∧ credentials = loadFromDb t' := by
  simp only [CredentialManager.store] at h
  split at h
  · cases h
  · next hwrite =>
    cases h
    by_cases hne : socks = []
    · subst hne
      rw [writeSocks, if_pos rfl] at hwrite
      cases hwrite
      exact Or.inl ⟨rfl, rfl, hnew⟩
    · exact Or.inr ⟨hne, by rw [hnew, loadFromDb_writeSocks hne hwrite]⟩

theorem migrate_ok {files : List PasswordFile} (hnew : m.credentials = fun _ => none)
    (h : m.migrateFromPasswordFiles t files env = (.ok (), credentials, t')) :
    credentials = loadFromDb t' ↔ ¬(importedFiles files = [] ∧ t.rows ≠ []) := by
  simp only [CredentialManager.migrateFromPasswordFiles] at h
  split at h
  · cases h
  · rcases store_ok hnew h with ⟨hempty, rfl, rfl⟩ | ⟨hne, hload⟩
    · rw [List.map_eq_nil_iff] at hempty
      rw [not_and_not_right, eq_comm]
      constructor
      · exact fun hload _ => not_not.mp fun hrows => loadFromDb_ne_of_rows hrows hload
      · exact fun hrows => loadFromDb_of_rows_nil (hrows hempty)
    · exact iff_of_true hload fun hnone => hne (List.map_eq_nil_iff.mpr hnone.1)

theorem loadOrGenerate_ok (h : m.loadOrGenerate t env = (.ok (), credentials, t')) : credentials = loadFromDb t' := by
  simp only [CredentialManager.loadOrGenerate] at h
  split at h
  · cases h
  · split at h
    · next hrows =>
      have hnone := loadFromDb_of_rows_nil (List.length_eq_zero_iff.mp hrows)
      rcases store_ok (m := { m with credentials := loadFromDb t }) hnone h with ⟨-, rfl, rfl⟩ | ⟨-, hload⟩
      · exact hnone.symm
      · exact hload
    · cases h
      rfl

/-- After a start-up that succeeds, memory and table agree exactly if it was not a migration of empty files into a table
    with rows. -/
theorem memory_agrees_iff (hnew : m.credentials = fun _ => none)
    (h : m.initializeStore t dir env = (.ok (), credentials, t')) :
    Agrees credentials t' ↔ ¬NothingImported t dir env := by
  simp only [CredentialManager.initializeStore] at h
  split at h
  · cases h
  · next credentials₁ t₁ hstart =>
    split at h
    · cases h
    · cases h
      rw [agrees_iff, CredentialManager.syncHostPort, loadFromDb_updateWhere fun _ => rfl]
      split at hstart
      · next hfiles =>
        rw [migrate_ok hnew hstart, NothingImported, and_iff_right hfiles]
      · next hfiles => exact iff_of_true (loadOrGenerate_ok hstart) fun hnone => hfiles hnone.1

end Memory

/-- A manager that was just created. -/
def CredentialManager.sample : CredentialManager := .new "203.0.113.7" 1080 5

/-- One password file with a blank text, and two users in the table. -/
theorem empty_files_empty_map :
    ∃ credentials t', CredentialManager.sample.initializeStore .sample (some [⟨"u_x.password", some "\n"⟩]) .sample =
        (.ok (), credentials, t') ∧
      t'.Has "u_a" "p_a" ∧ authenticate credentials "u_a" "p_a" = false ∧ ¬Agrees credentials t' := by
  have hrun : (CredentialManager.sample.initializeStore .sample (some [⟨"u_x.password", some "\n"⟩]) .sample).1 = .ok () ∧
      (CredentialManager.sample.initializeStore .sample (some [⟨"u_x.password", some "\n"⟩]) .sample).2.2.Has "u_a" "p_a" ∧
      authenticate (CredentialManager.sample.initializeStore .sample (some [⟨"u_x.password", some "\n"⟩]) .sample).2.1
        "u_a" "p_a" = false := by
    decide +kernel
  obtain ⟨hok, hhas, hauth⟩ := hrun
  exact ⟨_, _, Prod.ext hok rfl, hhas, hauth, fun h => Bool.false_ne_true (hauth.symm.trans ((h "u_a" "p_a").mpr hhas))⟩

/-- A start-up that imports one file. -/
theorem memory_agrees_iff_sample :
    ∃ credentials t', CredentialManager.sample.initializeStore .sample (some [⟨"u_x.password", some "p_x"⟩]) .sample =
        (.ok (), credentials, t') ∧
      t'.names = ["u_x"] ∧ Agrees credentials t' := by
  have hrun : (CredentialManager.sample.initializeStore .sample (some [⟨"u_x.password", some "p_x"⟩]) .sample).1 = .ok () ∧
      (CredentialManager.sample.initializeStore .sample (some [⟨"u_x.password", some "p_x"⟩]) .sample).2.2.names = ["u_x"] := by
    decide +kernel
  have himported : importedFiles [⟨"u_x.password", some "p_x"⟩] ≠ [] := by decide +kernel
  obtain ⟨hok, hnames⟩ := hrun
  exact ⟨_, _, Prod.ext hok rfl, hnames,
    (memory_agrees_iff (m := .sample) rfl (Prod.ext hok rfl)).mpr fun hnone => himported hnone.2.1⟩

/-! ### Slots that are never released -/

/-- Every taken slot has an expiry that a cleanup can find. -/
def Socks5Table.Reclaimable (t : Socks5Table) : Prop := ∀ r ∈ t.rows, r.available = false → 0 < r.expiresAt

instance (t : Socks5Table) : Decidable t.Reclaimable := inferInstanceAs (Decidable (∀ r ∈ t.rows, _ → _))

/-- The part of a batch that is written: all of it, or what stands before the statement that fails. -/
def WriteEnv.written {α : Type} (env : WriteEnv) (batch : List α) : List α :=
  match env.fault with
  | some (n, _) => batch.take n
  | none => batch

/-- A migration writes a file that is marked as used, not empty, and the first one of a user without a row. -/
def LosesSlot (t : Socks5Table) (dir : Option (List PasswordFile)) (env : StartupEnv) : Prop :=
  hasPasswordFiles dir env.scanned = true ∧ env.listing = .ok () ∧ ∃ f,
    (env.write.written (importedFiles (dir.getD []))).find? (fun g => decide (g.username = f.username)) = some f ∧
    f.username ∉ t.names ∧ marked (dir.getD []) f = true

/-- The allocations and the extensions ask for positive expiries. -/
def PositiveExpiry (_ : SockSys) : SockAct → Prop
  | .call _ (.start _ e) => 0 < e
  | .extend _ _ new => 0 < new
  | _ => True

namespace Socks5Table
variable {t t' : Socks5Table} {p : Socks5Config → Bool} {u : Socks5Update}

theorem reclaimable_iff : t.Reclaimable ↔ ∀ username e, t.flags username = some (false, e) → 0 < e := by
  constructor
  · intro h username e hflags
    obtain ⟨r, hr, heq⟩ := Option.map_eq_some_iff.mp hflags
    obtain ⟨havail, rfl⟩ := Prod.mk.inj heq
    exact h r (read_eq_some_iff.mp hr).1 havail
  · intro h r hr havail
    refine h r.username r.expiresAt ?_
    rw [flags, read_eq_some_iff.mpr ⟨hr, rfl⟩, Option.map_some, havail]

theorem Reclaimable.updateWhere (h : t.Reclaimable)
    (hu : ∀ r, p r = true → (r.available = false → 0 < r.expiresAt) → (u.set r).available = false → 0 < (u.set r).expiresAt) :
    (t.updateWhere p u).Reclaimable := by
  intro r hr havail
  obtain ⟨r₀, hr₀, rfl⟩ := List.mem_map.mp hr
  by_cases hp : p r₀ = true
  · rw [if_pos hp] at havail ⊢
    exact hu r₀ hp (h r₀ hr₀) havail
  · rw [if_neg hp] at havail ⊢
    exact h r₀ hr₀ havail

theorem Reclaimable.released (h : t.Reclaimable) {r : Socks5Config} (hr : r ∈ t.rows) (havail : r.available = false)
    {nowMs : Int} (hnow : r.expiresAt ≤ nowMs) :
    readSocks5ConfigByUsername (cleanupExpiredSocks5Configs t nowMs).2 r.username =
      some { r with available := true, expiresAt := 0 } := by
  refine (read_updateWhere_of (read_eq_some_iff.mpr ⟨hr, rfl⟩)).trans (congrArg some (if_pos ?_))
  exact decide_eq_true ⟨h r hr havail, hnow⟩

end Socks5Table

section Runs
variable {N : Int} {s t : SockSys} {a : SockAct}

/-- Every call asks for a positive expiry. -/
def CallsPositive (s : SockSys) : Prop := ∀ c call, s.calls c = some call → 0 < call.expiresAt

theorem callsPositive_step (hcalls : CallsPositive s) (hpos : PositiveExpiry s a) (h : s.step N a = some t) :
    CallsPositive t := by
  cases a with
  | tick now =>
    obtain ⟨-, rfl⟩ := SockStep.tick_inv h
    exact hcalls
  | extend username expected new =>
    obtain rfl | ⟨r, -, -, -, rfl⟩ := SockStep.extend_inv h <;> exact hcalls
  | cleanup =>
    cases h
    exact hcalls
  | reload =>
    cases h
    exact hcalls
  | call c a =>
    obtain ⟨e, pc, hgoto, hstart⟩ := SockStep.callStep_calls h
    intro c' call hc'
    rw [hgoto] at hc'
    obtain ⟨rfl, rfl⟩ | ⟨-, hc'⟩ := SockSys.calls_goto hc'
    · rcases hstart with ⟨pc₀, hc⟩ | ⟨priority, rfl⟩
      · have hbefore : 0 < e := hcalls c' _ hc
        exact hbefore
      · exact hpos
    · exact hcalls c' call hc'

theorem reclaimable_step (hcalls : CallsPositive s) (hlaw : s.table.Reclaimable)
    (hpos : PositiveExpiry s a) (h : s.step N a = some t) : t.table.Reclaimable := by
  have hslots := slotsStep h
  generalize t.table = table at hslots ⊢
  cases hslots with
  | same => exact hlaw
  | cleanup => exact hlaw.updateWhere fun _ _ _ h => by cases h
  | refused => exact hlaw
  | extend => exact hlaw.updateWhere fun _ _ _ _ => hpos
  | handOut hc => exact hlaw.updateWhere fun _ _ _ _ => hcalls _ _ hc
  | mark hc => exact hlaw.updateWhere fun _ _ _ _ => hcalls _ _ hc

theorem reclaimable_reach {t₀ : Socks5Table} {clock : Int} (hlaw : t₀.Reclaimable)
    (hr : Reach (SockSys.step N) PositiveExpiry (.start t₀ clock) s) : s.table.Reclaimable := by
  refine (hr.inv (I := fun s => CallsPositive s ∧ s.table.Reclaimable) ⟨(fun _ _ h => by cases h), hlaw⟩ ?_).2
  exact fun s a t hs hpos h => ⟨callsPositive_step hs.1 hpos h, reclaimable_step hs.1 hs.2 hpos h⟩

end Runs

section Startup
variable {m : CredentialManager} {t t₀ : Socks5Table} {dir : Option (List PasswordFile)} {env : StartupEnv}
  {socks : List Socks5Config} {write : WriteEnv} {username : String}

theorem flags_writeSocks (t : Socks5Table) (socks : List Socks5Config) (write : WriteEnv) (username : String) :
    (writeSocks t socks write).2.flags username = (t.flags username).or
        (((write.written socks).find? fun sock => decide (sock.username = username)).map fun sock =>
          (sock.available, sock.expiresAt)) ∨
      (writeSocks t socks write).2.flags username = none ∧
        (write.written socks).find? (fun sock => decide (sock.username = username)) = none := by
  by_cases hempty : socks = []
  · subst hempty
    left
    cases hfault : write.fault <;> simp [writeSocks, WriteEnv.written, hfault]
  · cases hfault : write.fault with
    | some failure =>
      simp only [writeSocks, WriteEnv.written, hfault, if_neg hempty]
      exact Or.inl flags_upsertSocks
    | none =>
      simp only [writeSocks, WriteEnv.written, hfault, if_neg hempty]
      rw [Socks5Table.flags, Socks5Table.read_deleteOthers]
      split
      · exact Or.inl flags_upsertSocks
      · next hnot =>
        refine Or.inr ⟨rfl, List.find?_eq_none.mpr fun sock hsock hname => hnot ?_⟩
        exact List.mem_map.mpr ⟨sock, hsock, of_decide_eq_true hname⟩

theorem mem_of_find?_written {p : Socks5Config → Bool} {sock : Socks5Config}
    (h : (write.written socks).find? p = some sock) : sock ∈ socks := by
  have hwritten := List.mem_of_find?_eq_some h
  rw [WriteEnv.written] at hwritten
  split at hwritten
  · exact List.mem_of_mem_take hwritten
  · exact hwritten

/-- A batch without expiries keeps the law exactly if it takes no slot of a user without a row. -/
theorem reclaimable_writeSocks (hlaw : t.Reclaimable) (hzero : ∀ sock ∈ socks, sock.expiresAt = 0) :
    (writeSocks t socks write).2.Reclaimable ↔ ¬∃ username sock,
      (write.written socks).find? (fun sock => decide (sock.username = username)) = some sock ∧
      t.flags username = none ∧ sock.available = false := by
  rw [Socks5Table.reclaimable_iff]
  constructor
  · rintro h ⟨username, sock, hfind, hnone, havail⟩
    rcases flags_writeSocks t socks write username with hflags | ⟨-, hfind'⟩
    · rw [hnone, hfind, Option.map_some, havail, hzero sock (mem_of_find?_written hfind), Option.none_or] at hflags
      exact lt_irrefl _ (h username 0 hflags)
    · cases hfind.symm.trans hfind'
  · intro hnot username e hflags
    rcases flags_writeSocks t socks write username with heq | ⟨hnone, -⟩
    · cases hrow : t.flags username with
      | some flags =>
        rw [heq, hrow, Option.some_or] at hflags
        exact Socks5Table.reclaimable_iff.mp hlaw username e (hrow.trans hflags)
      | none =>
        rw [heq, hrow, Option.none_or, Option.map_eq_some_iff] at hflags
        obtain ⟨sock, hfind, hsock⟩ := hflags
        exact absurd ⟨username, sock, hfind, hrow, (Prod.mk.inj hsock).1⟩ hnot
    · cases hnone.symm.trans hflags

theorem store_table : (m.store t socks write).2.2 = (writeSocks t socks write).2 := by
  rw [CredentialManager.store]
  split <;> next h => rw [h]

theorem find?_written_importedConfig {files imported : List PasswordFile} :
    (write.written (imported.map (m.importedConfig files))).find? (fun sock => decide (sock.username = username)) =
      ((write.written imported).find? fun f => decide (f.username = username)).map (m.importedConfig files) := by
  rw [WriteEnv.written, WriteEnv.written]
  split
  · rw [← List.map_take, List.find?_map]
    rfl
  · rw [List.find?_map]
    rfl

theorem flags_eq_none_iff : t.flags username = none ↔ username ∉ t.names := by
  rw [Socks5Table.flags, Option.map_eq_none_iff]
  constructor
  · rintro hnone hmem
    obtain ⟨r, hr, hname⟩ := List.mem_map.mp hmem
    cases hnone.symm.trans (Socks5Table.read_eq_some_iff.mpr ⟨hr, hname⟩)
  · intro hnot
    cases hread : readSocks5ConfigByUsername t username with
    | none => rfl
    | some r =>
      obtain ⟨hr, hname⟩ := Socks5Table.read_eq_some_iff.mp hread
      exact absurd (List.mem_map.mpr ⟨r, hr, hname⟩) hnot

theorem reclaimable_migrate {files : List PasswordFile} (hlaw : t.Reclaimable) :
    (m.migrateFromPasswordFiles t files env).2.2.Reclaimable ↔ ¬(env.listing = .ok () ∧ ∃ f,
      (env.write.written (importedFiles files)).find? (fun g => decide (g.username = f.username)) = some f ∧
      f.username ∉ t.names ∧ marked files f = true) := by
  rw [CredentialManager.migrateFromPasswordFiles]
  split
  · next hlisting => exact iff_of_true hlaw fun h => by cases hlisting.symm.trans h.1
  · next hlisting =>
    have hzero : ∀ sock ∈ (importedFiles files).map (m.importedConfig files), sock.expiresAt = 0 := by
      intro sock hsock
      obtain ⟨f, -, rfl⟩ := List.mem_map.mp hsock
      rfl
    rw [store_table, reclaimable_writeSocks hlaw hzero, not_iff_not, and_iff_right hlisting]
    constructor
    · rintro ⟨username, sock, hfind, hnone, havail⟩
      rw [find?_written_importedConfig, Option.map_eq_some_iff] at hfind
      obtain ⟨f, hf, rfl⟩ := hfind
      have hname : f.username = username := by simpa using List.find?_some hf
      subst hname
      have hmarked : (!marked files f) = false := havail
      exact ⟨f, hf, flags_eq_none_iff.mp hnone, by simpa using hmarked⟩
    · rintro ⟨f, hf, hnew, hmarked⟩
      refine ⟨f.username, m.importedConfig files f, ?_, flags_eq_none_iff.mpr hnew, ?_⟩
      · rw [find?_written_importedConfig, hf, Option.map_some]
      · rw [CredentialManager.importedConfig, hmarked, Bool.not_true]

theorem reclaimable_loadOrGenerate (hlaw : t.Reclaimable) : (m.loadOrGenerate t env).2.2.Reclaimable := by
  rw [CredentialManager.loadOrGenerate]
  split
  · exact hlaw
  · dsimp only
    split
    · rw [CredentialManager.generateCredentials, store_table]
      refine (reclaimable_writeSocks hlaw fun sock hsock => ?_).mpr ?_
      · obtain ⟨i, -, rfl⟩ := List.mem_map.mp hsock
        rfl
      · rintro ⟨username, sock, hfind, -, havail⟩
        obtain ⟨i, -, rfl⟩ := List.mem_map.mp (mem_of_find?_written hfind)
        cases havail
    · exact hlaw

theorem flags_updateWhere {p : Socks5Config → Bool} {u : Socks5Update}
    (hu : ∀ r, ((u.set r).available, (u.set r).expiresAt) = (r.available, r.expiresAt)) :
    (t.updateWhere p u).flags username = t.flags username := by
  rw [Socks5Table.flags, Socks5Table.read_updateWhere, Option.map_map]
  refine Option.map_congr fun r _ => ?_
  rw [Function.comp_apply]
  split
  · exact hu r
  · rfl

theorem reclaimable_initializeStore (hlaw : t₀.Reclaimable) :
    (m.initializeStore t₀ dir env).2.2.Reclaimable ↔ ¬LosesSlot t₀ dir env := by
  have hstart : (if hasPasswordFiles dir env.scanned then m.migrateFromPasswordFiles t₀ (dir.getD []) env
      else m.loadOrGenerate t₀ env).2.2.Reclaimable ↔ ¬LosesSlot t₀ dir env := by
    split
    · next hfiles => rw [reclaimable_migrate hlaw, LosesSlot, and_iff_right hfiles]
    · next hfiles => exact iff_of_true (reclaimable_loadOrGenerate hlaw) fun h => hfiles h.1
  rw [CredentialManager.initializeStore]
  split
  · next heq => rwa [heq] at hstart
  · next t heq =>
    rw [heq] at hstart
    split
    · exact hstart
    · rw [← hstart, Socks5Table.reclaimable_iff, Socks5Table.reclaimable_iff]
      exact forall_congr' fun username => by rw [CredentialManager.syncHostPort, flags_updateWhere fun _ => rfl]

/-- From a table in which every taken slot has an expiry, a start-up leads to runs in which that stays so, and in which
    every taken slot is released once its expiry has passed, exactly if it does not import a file that is marked as
    used as the first one of a user without a row. -/
theorem no_slot_lost_iff (hlaw : t₀.Reclaimable) :
    (∀ N clock s, Reach (SockSys.step N) PositiveExpiry (.start (m.initializeStore t₀ dir env).2.2 clock) s →
      s.table.Reclaimable ∧ ∀ r ∈ s.table.rows, r.available = false → ∀ nowMs, r.expiresAt ≤ nowMs →
        readSocks5ConfigByUsername (cleanupExpiredSocks5Configs s.table nowMs).2 r.username =
          some { r with available := true, expiresAt := 0 }) ↔ ¬LosesSlot t₀ dir env := by
  rw [← reclaimable_initializeStore (m := m) hlaw]
  constructor
  · exact fun h => (h 0 0 _ .refl).1
  · intro hstart N clock s hr
    have hlaw := reclaimable_reach hstart hr
    exact ⟨hlaw, fun r hr havail nowMs hnow => hlaw.released hr havail hnow⟩

/-- A user whose password file is marked as used. -/
def usedDirectory : List PasswordFile := [⟨"u_x.password", some "p_x"⟩, ⟨"u_x.password.used", some ""⟩]

/-- The slot of that user is taken and has no expiry, right after the start-up. -/
theorem used_file_loses_slot :
    ∃ s, Reach (SockSys.step 1) PositiveExpiry
        (.start (CredentialManager.sample.initializeStore .sample (some usedDirectory) .sample).2.2 0) s ∧
      Socks5Table.sample.Reclaimable ∧ (∃ r ∈ s.table.rows, r.available = false ∧ r.expiresAt = 0) ∧
      ¬s.table.Reclaimable := by
  refine ⟨_, .refl, ?_⟩
  decide +kernel

/-- The same file without the marker. -/
theorem no_slot_lost_iff_sample :
    (∀ N clock s, Reach (SockSys.step N) PositiveExpiry
        (.start (CredentialManager.sample.initializeStore .sample (some (usedDirectory.take 1)) .sample).2.2 clock) s →
      s.table.Reclaimable ∧ ∀ r ∈ s.table.rows, r.available = false → ∀ nowMs, r.expiresAt ≤ nowMs →
        readSocks5ConfigByUsername (cleanupExpiredSocks5Configs s.table nowMs).2 r.username =
          some { r with available := true, expiresAt := 0 }) ↔
      ¬LosesSlot .sample (some (usedDirectory.take 1)) .sample :=
  no_slot_lost_iff (by decide)

end Startup

end TpnWorker
