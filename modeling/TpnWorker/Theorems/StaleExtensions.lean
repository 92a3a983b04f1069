import TpnWorker.Concurrent.Slots
import TpnWorker.Service.LeaseManager
import TpnWorker.Theorems.Exclusive

/-! The guard of an extension compares a time, which two leases may share. A lease that has not expired still has its
    row, so an extension with the expiry of an earlier lease meets an expiry that has passed. -/

namespace TpnWorker
open Keyed Transition

/-- An extension of a lease, by its peer id and its expiry, succeeds only while the lease holds its row. -/
theorem Held.extended {D : Deployment} {s : Sys} {c : ℕ} {l : Lease} {new : Int} {nowStr : String} {result : WgLease}
    {table : WgTable} (I : Leased D s) (H : Held s) (hl : s.leases c = some l) (hb : l.rolledBack = false)
    (h : extendWireguardLease s.table l.peerId l.expiresAt new s.clock nowStr = (.ok result, table)) :
    s.holder l.peerId = some c ∧ s.clock < l.expiresAt := by
  obtain ⟨r, -, hexp, hlt, -, -⟩ := extendWireguardLease_ok h
  have hlive : s.clock < l.expiresAt := hexp ▸ hlt
  exact ⟨(H.row I hl hb hlive).1, hlive⟩

theorem Occupied.extended {s : SockSys} {c : ℕ} {l : SockLease} {new : Int} {result : Socks5LeaseExtension}
    {table : Socks5Table} (O : Occupied s) (hl : s.leases c = some l)
    (h : extendSocks5Lease s.table l.config.username l.expiresAt new s.clock = (.ok result, table)) :
    s.holder l.config.username = some c ∧ s.clock < l.expiresAt := by
  obtain ⟨r, -, hexp, hlt, -, -⟩ := extendSocks5Lease_ok h
  have hlive : s.clock < l.expiresAt := hexp ▸ hlt
  exact ⟨(O.lease hl).resolve_right (not_le.mpr hlive), hlive⟩

/-- An extension that presents the reference of a lease and the expiry that its grant or its last extension gave it
    succeeds only while the lease is unexpired and is the one stored under the reference. For WireGuard a rollback
    may take part in the run if it meets no unexpired row of another call; the SOCKS5 slots are those that no
    priority request is handed out. -/
theorem stale_extension_refused (D : Deployment) (N clock : Int) (t₀ : Socks5Table) :
    (∀ s c l new nowStr result table, Reach D.step RollbackSafe (.fresh clock) s → s.leases c = some l →
      l.rolledBack = false →
      extendWireguardLease s.table l.peerId l.expiresAt new s.clock nowStr = (.ok result, table) →
      s.holder l.peerId = some c ∧ s.clock < l.expiresAt) ∧
    ∀ s c l new result table, Reach (SockSys.step N) Apart (.start t₀ clock) s → s.leases c = some l →
      extendSocks5Lease s.table l.config.username l.expiresAt new s.clock = (.ok result, table) →
      s.holder l.config.username = some c ∧ s.clock < l.expiresAt :=
  ⟨fun _ _ _ _ _ _ _ hr hl hb h => (Held.of_reach hr).extended (.of_reach hr) hl hb h,
    fun _ _ _ _ _ _ hr hl h => (Occupied.of_reach hr).extended hl h⟩

/-- A peer id that was granted again, and a slot that was granted for the first time. -/
theorem stale_extension_refused_sample :
    ∃ (s : Sys) (u : SockSys) (l : Lease) (k : SockLease), s.leases 2 = some l ∧ u.leases 1 = some k ∧
      (s.holder l.peerId = some 2 ∧ s.clock < l.expiresAt) ∧ u.holder k.config.username = some 1 ∧
      u.clock < k.expiresAt := by
  have hrows : (execWhen (Deployment.sample 1).step RollbackSafe (.fresh 0)
      (Act.reserve 1 1000 ++ [.tick 1001] ++ Act.reservePurged 2 2000 1001)).any fun s => decide
        (∃ l ∈ s.leases 2, l.rolledBack = false ∧
          (extendWireguardLease s.table l.peerId l.expiresAt 3000 s.clock "").1.toOption.isSome) := by
    decide +kernel
  have hslots : (exec (SockSys.step 1) (.start .sample 0) (SockAct.lease 1 100)).any fun u => decide
      (∃ k ∈ u.leases 1, (extendSocks5Lease u.table k.config.username k.expiresAt 200 u.clock).1.toOption.isSome) := by
    decide +kernel
  obtain ⟨s, hs, hfacts⟩ := (Option.any_eq_true _ _).mp hrows
  obtain ⟨l, hl, hb, hsome⟩ := of_decide_eq_true hfacts
  obtain ⟨result, hresult⟩ := Option.isSome_iff_exists.mp hsome
  obtain ⟨u, hu, hfacts⟩ := (Option.any_eq_true _ _).mp hslots
  obtain ⟨k, hk, hsome'⟩ := of_decide_eq_true hfacts
  obtain ⟨result', hresult'⟩ := Option.isSome_iff_exists.mp hsome'
  have hr : Reach (SockSys.step 1) Apart (.start .sample 0) u := by
    refine (Reach.of_exec (E := fun a => ∀ c nowMs, a ≠ .call c (.handOut nowMs)) ?_ hu).mono ?_
    · simp [SockAct.lease]
    · exact fun _ a ha c nowMs _ _ heq => absurd heq (ha c nowMs)
  exact ⟨s, u, l, k, hl, hk,
    (stale_extension_refused (Deployment.sample 1) 1 0 .sample).1 s 2 l 3000 "" result _ (Reach.of_execWhen hs) hl hb
      (eq_ok_of_mem_toOption hresult),
    (stale_extension_refused (Deployment.sample 1) 1 0 .sample).2 u 1 k 200 result' _ hr hk
      (eq_ok_of_mem_toOption hresult')⟩

end TpnWorker
