import TpnWorker.Db.Init
import TpnWorker.Proxy.Initialize

/-! Starts on a table of an older version. Whichever statements fail, the logins that load afterwards are the ones that loaded
    before; and as soon as the duplicates could be deleted, each username has its newest row alone. -/

namespace TpnWorker
open Keyed

/-- Load the credentials of every row, in order of the id. -/
def loadRows (t : Socks5Rows) : Credentials := t.rows.foldl insertCredential fun _ => none

/-- The rows after some starts. -/
def startsOn (t : Socks5Rows) (envs : List IndexEnv) : Socks5Rows :=
  envs.foldl (fun t env => indexedRows (ensureUsernameIndex t env)) t

section Starts
variable {t : Socks5Rows} {env : IndexEnv} {envs : List IndexEnv}

theorem loadRows_keepNewest : loadRows (t.keepNewest (·.username)) = loadRows t := by
  funext username
  rw [loadRows, loadRows, foldl_insertCredential_reverse, foldl_insertCredential_reverse, Table.find?_reverse_keepNewest]

theorem keepNewest_keepNewest : (t.keepNewest (·.username)).keepNewest (·.username) = t.keepNewest (·.username) :=
  Table.keepNewest_of_nodup Table.nodup_keepNewest

/-- A deletion that succeeds leaves the newest rows. -/
theorem indexedRows_of_delete (hdelete : env.delete = .ok ()) :
    indexedRows (ensureUsernameIndex t env) = t.keepNewest (·.username) := by
  rw [← deleteDuplicates_eq]
  unfold ensureUsernameIndex
  split
  · next t' hcreate =>
    have htable := createUsernameIndex_eq_some hcreate
    rw [indexedRows, deleteDuplicates_eq, ← htable, Table.keepNewest_of_nodup t'.unique]
  · rw [hdelete]
    dsimp only
    split
    · next hretry => exact createUsernameIndex_eq_some hretry
    · rfl

/-- A start whose deletion and second attempt succeed has the index. -/
theorem ensureUsernameIndex_succeeds (hdelete : env.delete = .ok ()) (hretry : env.retry = .ok ()) :
    ∃ t' : Socks5Table, ensureUsernameIndex t env = .ok t' := by
  unfold ensureUsernameIndex
  split
  · exact ⟨_, rfl⟩
  · rw [hdelete, hretry, deleteDuplicates_eq]
    simp only [createUsernameIndex, dif_pos Table.nodup_keepNewest]
    exact ⟨_, rfl⟩

/-- Over any starts the rows are left alone, or reduced to the newest ones. -/
theorem startsOn_cases (t : Socks5Rows) (envs : List IndexEnv) : startsOn t envs = t ∨ startsOn t envs = t.keepNewest (·.username) := by
  induction envs generalizing t with
  | nil => exact Or.inl rfl
  | cons env envs ih =>
    rw [startsOn, List.foldl_cons, ← startsOn]
    rcases indexedRows_cases t env with heq | heq
    · rw [heq]
      exact ih t
    · rw [heq]
      rcases ih (t.keepNewest (·.username)) with h | h
      · exact Or.inr h
      · exact Or.inr (h.trans keepNewest_keepNewest)

/-- One deletion that succeeds decides. -/
theorem startsOn_of_delete (h : ∃ env ∈ envs, env.delete = .ok ()) : startsOn t envs = t.keepNewest (·.username) := by
  induction envs generalizing t with
  | nil =>
    obtain ⟨_, hmem, -⟩ := h
    cases hmem
  | cons env envs ih =>
    rw [startsOn, List.foldl_cons, ← startsOn]
    obtain ⟨env', hmem, hdelete⟩ := h
    rcases List.mem_cons.mp hmem with rfl | hmem
    · rw [indexedRows_of_delete hdelete]
      rcases startsOn_cases (t.keepNewest (·.username)) envs with h | h
      · exact h
      · exact h.trans keepNewest_keepNewest
    · rw [ih ⟨env', hmem, hdelete⟩]
      rcases indexedRows_cases t env with heq | heq
      · rw [heq]
      · rw [heq, keepNewest_keepNewest]

/-- However often the program is started on a table with duplicates, and whichever statements fail, the logins that load stay
    the same. The rows are those from before or, from the first deletion that succeeds on, the newest of each username; and a
    start whose statements succeed has the index. -/
theorem logins_survive_starts (t : Socks5Rows) (envs : List IndexEnv) (env : IndexEnv) :
    loadRows (startsOn t envs) = loadRows t ∧
    (startsOn t envs = t ∨ startsOn t envs = t.keepNewest (·.username)) ∧
    ((∃ env ∈ envs, env.delete = .ok ()) → startsOn t envs = t.keepNewest (·.username)) ∧
    (env.delete = .ok () ∧ env.retry = .ok () →
      ∃ t' : Socks5Table, ensureUsernameIndex (startsOn t envs) env = .ok t' ∧ loadFromDb t' = loadRows t) := by
  have hload : ∀ envs, loadRows (startsOn t envs) = loadRows t := by
    intro envs
    rcases startsOn_cases t envs with h | h
    · rw [h]
    · rw [h, loadRows_keepNewest]
  refine ⟨hload envs, startsOn_cases t envs, startsOn_of_delete, ?_⟩
  rintro ⟨hdelete, hretry⟩
  obtain ⟨t', ht'⟩ := ensureUsernameIndex_succeeds (t := startsOn t envs) hdelete hretry
  refine ⟨t', ht', ?_⟩
  have hrows := indexedRows_of_delete (t := startsOn t envs) hdelete
  rw [ht'] at hrows
  have htable : t'.table = (startsOn t envs).keepNewest (·.username) := hrows
  rw [← hload envs, ← loadRows_keepNewest, ← htable]
  rfl

end Starts

/-- Two rows of one user, and one of another. -/
def Socks5Rows.sample : Socks5Rows where
  rows := [⟨1, "203.0.113.7", 1080, "u_a", "p_old", true, 0, 0⟩, ⟨2, "203.0.113.7", 1080, "u_b", "p_b", true, 0, 0⟩,
    ⟨3, "203.0.113.7", 1080, "u_a", "p_new", true, 0, 0⟩]
  sorted := by decide

/-- The deletion fails at the first start and succeeds at the second one. -/
theorem newest_password_loads :
    ∃ t' : Socks5Table, ensureUsernameIndex (startsOn .sample [⟨.ok (), .error "database is locked", .ok ()⟩])
        ⟨.ok (), .ok (), .ok ()⟩ = .ok t' ∧
      loadFromDb t' "u_a" = some "p_new" := by
  obtain ⟨-, -, -, h⟩ := logins_survive_starts .sample [⟨.ok (), .error "database is locked", .ok ()⟩] ⟨.ok (), .ok (), .ok ()⟩
  obtain ⟨t', ht', hload⟩ := h ⟨rfl, rfl⟩
  exact ⟨t', ht', by rw [hload]; rfl⟩

end TpnWorker
