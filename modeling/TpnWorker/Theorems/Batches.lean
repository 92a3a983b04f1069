import TpnWorker.Proxy.Initialize

/-! What a batch of credentials leaves in the table: its users with their last passwords, on the rows that they had. -/

namespace TpnWorker
open Keyed

/-- The columns of a row that carry its address and its lease. -/
def Socks5Config.slot (r : Socks5Config) : String × Int × Bool × Int := (r.ipAddress, r.port, r.available, r.expiresAt)

/-- The first config of a user in a batch. -/
def firstOf (socks : List Socks5Config) (username : String) : Option Socks5Config :=
  socks.find? fun sock => decide (sock.username = username)

/-- The last config of a user in a batch. -/
def lastOf (socks : List Socks5Config) (username : String) : Option Socks5Config := firstOf socks.reverse username

/-- The id belongs to no row of the table, now or ever before. -/
def FreshId (t : Socks5Table) (sequence id : Int) : Prop := sequence < id ∧ ∀ r ∈ t.rows, r.id < id

/-- The table after a batch has the users of the batch, each once and with its last password. A user that had a row keeps
    it with its lease, and a new one has a fresh row with the columns of its first config. -/
structure Replaced (t : Socks5Table) (socks : List Socks5Config) (sequence : Int) (t' : Socks5Table) : Prop where
  once : t'.names.Nodup
  names : ∀ username, username ∈ t'.names ↔ username ∈ socks.map (·.username)
  password : ∀ r ∈ t'.rows, some r.password = (lastOf socks r.username).map (·.password)
  kept : ∀ r₀ ∈ t.rows, ∀ r ∈ t'.rows, r.username = r₀.username → r.id = r₀.id ∧ r.slot = r₀.slot
  added : ∀ r ∈ t'.rows, r.username ∉ t.names →
    FreshId t sequence r.id ∧ some r.slot = (firstOf socks r.username).map Socks5Config.slot

section Batch
variable {t t' : Socks5Table} {sock r r₀ : Socks5Config} {socks : List Socks5Config} {env : WriteEnv} {nowMs sequence : Int}
  {username : String}

theorem read_eq_none_iff : readSocks5ConfigByUsername t username = none ↔ username ∉ t.names := by
  rw [readSocks5ConfigByUsername, Table.findBy, List.find?_eq_none, Socks5Table.names, List.mem_map]
  constructor
  · rintro h ⟨r, hr, hname⟩
    exact h r hr (decide_eq_true hname)
  · intro h r hr hname
    exact h ⟨r, hr, of_decide_eq_true hname⟩

theorem freshId_nextId (t : Socks5Table) (sequence : Int) : FreshId t sequence (t.nextId sequence) := by
  refine ⟨?_, fun _ hr => Socks5Table.lt_nextId sequence hr⟩
  rw [Socks5Table.nextId, Int.lt_add_one_iff]
  induction t.rows.map (·.id) with
  | nil => exact le_rfl
  | cons id ids ih => exact ih.trans (le_max_right _ _)

/-- An upsert keeps the id of a row that exists. -/
theorem read_upsertSock_of_some (hr : readSocks5ConfigByUsername t username = some r₀) :
    ∃ r, readSocks5ConfigByUsername (upsertSock nowMs sequence t sock) username = some r ∧ r.id = r₀.id := by
  rw [Socks5Table.read_upsertSock, hr]
  split
  · exact ⟨_, rfl, rfl⟩
  · exact ⟨r₀, rfl, rfl⟩

/-- An upsert gives a row that did not exist the next id. -/
theorem read_upsertSock_of_none (hnone : readSocks5ConfigByUsername t username = none)
    (hr : readSocks5ConfigByUsername (upsertSock nowMs sequence t sock) username = some r) : r.id = t.nextId sequence := by
  rw [Socks5Table.read_upsertSock, hnone] at hr
  split at hr
  · cases hr
    rfl
  · cases hr

/-- An id that is fresh after an upsert was fresh before it. -/
theorem FreshId.of_upsertSock {id : Int} (h : FreshId (upsertSock nowMs sequence t sock) (t.nextId sequence) id) :
    FreshId t sequence id := by
  refine ⟨(freshId_nextId t sequence).1.trans h.1, fun r₀ hr₀ => ?_⟩
  obtain ⟨r, hr, hid⟩ : ∃ r, readSocks5ConfigByUsername (upsertSock nowMs sequence t sock) r₀.username = some r ∧ r.id = r₀.id :=
    read_upsertSock_of_some (Socks5Table.read_eq_some_iff.mpr ⟨hr₀, rfl⟩)
  exact hid ▸ h.2 r (Socks5Table.read_eq_some_iff.mp hr).1

/-- Over a batch, a row that exists keeps its id, and a new one gets a fresh id. -/
theorem id_upsertSocks (hr : readSocks5ConfigByUsername (upsertSocks nowMs sequence t socks) username = some r) :
    (∃ r₀, readSocks5ConfigByUsername t username = some r₀ ∧ r.id = r₀.id) ∨
      readSocks5ConfigByUsername t username = none ∧ FreshId t sequence r.id := by
  induction socks generalizing t sequence with
  | nil => exact Or.inl ⟨r, hr, rfl⟩
  | cons sock socks ih =>
    cases hread : readSocks5ConfigByUsername t username with
    | some r₀ =>
      obtain ⟨r₁, hr₁, hid₁⟩ : ∃ r, readSocks5ConfigByUsername (upsertSock nowMs sequence t sock) username = some r ∧
          r.id = r₀.id := read_upsertSock_of_some hread
      rcases ih hr with ⟨r₂, hr₂, hid⟩ | ⟨hnone, -⟩
      · cases hr₁.symm.trans hr₂
        exact Or.inl ⟨r₀, rfl, hid.trans hid₁⟩
      · cases hr₁.symm.trans hnone
    | none =>
      refine Or.inr ⟨rfl, ?_⟩
      rcases ih hr with ⟨r₁, hr₁, hid⟩ | ⟨-, hfresh⟩
      · rw [hid, read_upsertSock_of_none hread hr₁]
        exact freshId_nextId t sequence
      · exact hfresh.of_upsertSock

/-- What the upserts leave of the columns of a slot. -/
theorem slot_upsertSocks (hr : readSocks5ConfigByUsername (upsertSocks nowMs sequence t socks) username = some r) :
    some r.slot = ((readSocks5ConfigByUsername t username).map Socks5Config.slot).or
      ((firstOf socks username).map Socks5Config.slot) := by
  rw [firstOf, ← Socks5Table.map_read_upsertSocks (fun _ _ _ => rfl) fun _ _ _ => rfl, hr, Option.map_some]

/-- A row of the written table is the one that the upserts have left, of a user of the batch. -/
theorem read_written (hne : socks ≠ []) (h : writeSocks t socks env = (.ok (), t')) (hr : r ∈ t'.rows) :
    r.username ∈ socks.map (·.username) ∧
      readSocks5ConfigByUsername (upsertSocks env.nowMs env.sequence t socks) r.username = some r := by
  rw [writeSocks, if_neg hne] at h
  split at h
  · cases h
  · cases h
    have hread := Socks5Table.read_eq_some_iff.mpr ⟨hr, rfl⟩
    rw [Socks5Table.read_deleteOthers] at hread
    split at hread
    · next hmem => exact ⟨hmem, hread⟩
    · cases hread

/-- The password of a user is the one of its last config. -/
theorem password_written (hne : socks ≠ []) (h : writeSocks t socks env = (.ok (), t')) (username : String) :
    (readSocks5ConfigByUsername t' username).map (·.password) = (lastOf socks username).map (·.password) := by
  rw [← loadFromDb_apply, loadFromDb_writeSocks hne h, foldl_insertCredential_reverse, Option.or_none]
  rfl

theorem mem_names_written (hne : socks ≠ []) (h : writeSocks t socks env = (.ok (), t')) (username : String) :
    username ∈ t'.names ↔ username ∈ socks.map (·.username) := by
  have hpassword := congrArg Option.isSome (password_written hne h username)
  simp only [Option.isSome_map] at hpassword
  have hlast : (lastOf socks username).isSome ↔ username ∈ socks.map (·.username) := by
    rw [lastOf, firstOf, List.find?_isSome]
    simp only [List.mem_reverse, decide_eq_true_eq, List.mem_map]
  rw [← hlast, ← hpassword, ← not_iff_not, ← read_eq_none_iff, Bool.not_eq_true, Option.isSome_eq_false_iff,
    Option.isNone_iff_eq_none]

/-- If every statement succeeds, a batch replaces the users of the table, and an empty one leaves it alone. -/
theorem batch_replaces (t : Socks5Table) (socks : List Socks5Config) (env : WriteEnv) (hok : env.fault = none) :
    (socks = [] → writeSocks t socks env = (.ok (), t)) ∧
      (socks ≠ [] → ∃ t', writeSocks t socks env = (.ok (), t') ∧ Replaced t socks env.sequence t') := by
  refine ⟨fun hnil => by rw [writeSocks, if_pos hnil], fun hne => ?_⟩
  have hwrite : writeSocks t socks env =
      (.ok (), deleteOthers (upsertSocks env.nowMs env.sequence t socks) (socks.map (·.username))) := by
    simp only [writeSocks, if_neg hne, hok]
  refine ⟨_, hwrite, Socks5Table.unique _, mem_names_written hne hwrite, ?_, ?_, ?_⟩
  · intro r hr
    rw [← password_written hne hwrite, Socks5Table.read_eq_some_iff.mpr ⟨hr, rfl⟩]
    rfl
  · intro r₀ hr₀ r hr hname
    have hread := (read_written hne hwrite hr).2
    have hprior : readSocks5ConfigByUsername t r.username = some r₀ :=
      Socks5Table.read_eq_some_iff.mpr ⟨hr₀, hname.symm⟩
    have hslot := slot_upsertSocks hread
    rw [hprior] at hslot
    refine ⟨?_, Option.some.inj hslot⟩
    rcases id_upsertSocks hread with ⟨r₁, hr₁, hid⟩ | ⟨hnone, -⟩
    · cases hprior.symm.trans hr₁
      exact hid
    · cases hprior.symm.trans hnone
  · intro r hr hnew
    have hread := (read_written hne hwrite hr).2
    have hprior := read_eq_none_iff.mpr hnew
    have hslot := slot_upsertSocks hread
    rw [hprior] at hslot
    refine ⟨?_, hslot⟩
    rcases id_upsertSocks hread with ⟨r₁, hr₁, -⟩ | ⟨-, hfresh⟩
    · cases hprior.symm.trans hr₁
    · exact hfresh

end Batch

/-- A batch that names one of two users twice, and a new one. -/
def Socks5Config.sampleBatch : List Socks5Config :=
  [⟨0, "", 0, "u_b", "old", true, 0, 0⟩, ⟨0, "", 0, "u_c", "p_c", true, 0, 0⟩, ⟨0, "", 0, "u_b", "new", true, 0, 0⟩]

theorem batch_replaces_sample :
    ∃ t', writeSocks .sample Socks5Config.sampleBatch ⟨7, 2, none⟩ = (.ok (), t') ∧
      Replaced .sample Socks5Config.sampleBatch 2 t' :=
  (batch_replaces .sample Socks5Config.sampleBatch ⟨7, 2, none⟩ rfl).2 (by decide)

-- The upsert of a username that is there takes an id too.
example : (writeSocks .sample Socks5Config.sampleBatch ⟨7, 2, none⟩).2.rows.map (·.id) = [2, 4] := by decide

end TpnWorker
