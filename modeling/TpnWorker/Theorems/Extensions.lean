import TpnWorker.Node
import TpnWorker.Service.LeaseManager

/-! Extensions that fail. A WireGuard extension updates its row before it looks for the server and for the
    peer, so it fails after the UPDATE exactly when one of them is missing. -/

namespace TpnWorker
open Keyed

/-- A WireGuard extension would change the row that it names although no peer is there to answer with: there is no
    server, or the map has no entry for the id. -/
def Stranded (W : Worker) (s : Stores) (req : LeaseRequest) (ref : String) (env : LeaseEnv) : Prop :=
  req.leaseType = "wireguard" ∧ ∃ peerId r, parseI32 ref = some peerId ∧ s.table.get? peerId = some r ∧
    req.extendExpiresAt = some r.expiresAt ∧ env.updateMs < r.expiresAt ∧
    (W.wgServer = none ∨ s.peers (Wrap.asU16 peerId) = none) ∧
    (r.expiresAt ≠ newExpiresAt env.nowMs req.leaseSeconds ∨ r.updatedAt ≠ env.nowStr)

section Extension
variable {W : Worker} {s s' : Stores} {req : LeaseRequest} {ref : String} {expected : Int} {env : LeaseEnv}
  {e : AppError} {result : LeaseResult}

/-- An extension of a WireGuard lease changes nothing, or updates the row that it names and then finds the peer or
    fails for want of it. -/
theorem extendWireguard_cases {outcome : Except AppError LeaseResult} (hupdate : env.update = .ok ())
    (h : extendWireguard W s req ref expected env = (outcome, s')) :
    (s' = s ∧ ∀ peerId r, parseI32 ref = some peerId → s.table.get? peerId = some r →
        ¬(r.expiresAt = expected ∧ env.updateMs < r.expiresAt)) ∨
      ∃ peerId r table, parseI32 ref = some peerId ∧ s.table.get? peerId = some r ∧ r.expiresAt = expected ∧
        env.updateMs < r.expiresAt ∧ s' = { s with table } ∧
        (∀ k, table.get? k = if k = peerId then
          some { r with expiresAt := newExpiresAt env.nowMs req.leaseSeconds, updatedAt := env.nowStr }
          else s.table.get? k) ∧
        ((∃ e, outcome = .error e) ↔ W.wgServer = none ∨ s.peers (Wrap.asU16 peerId) = none) := by
  simp only [extendWireguard, hupdate] at h
  split at h
  · next hparse =>
    cases h
    exact Or.inl ⟨rfl, fun _ _ h => by cases hparse.symm.trans h⟩
  · next peerId hparse =>
    split at h
    · next hext =>
      cases h
      obtain ⟨rfl, -, hno⟩ := extendWireguardLease_error hext
      refine Or.inl ⟨rfl, fun peerId' r h hr => ?_⟩
      cases hparse.symm.trans h
      exact hno r hr
    · next lease table hext =>
      obtain ⟨r, hr, hexp, hlt, -, hget⟩ := extendWireguardLease_ok hext
      refine Or.inr ⟨peerId, r, table, hparse, hr, hexp, hlt, ?_⟩
      split at h
      · next hsrv =>
        cases h
        exact ⟨rfl, hget, fun _ => Or.inl hsrv, fun _ => ⟨_, rfl⟩⟩
      · next srv hsrv =>
        cases hpeer : s.peers (Wrap.asU16 peerId) with
        | none =>
          simp only [getClientConfig, hpeer] at h
          cases h
          exact ⟨rfl, hget, fun _ => Or.inr rfl, fun _ => ⟨_, rfl⟩⟩
        | some st =>
          simp only [getClientConfig, hpeer] at h
          cases h
          refine ⟨rfl, hget, fun h => ?_, fun h => ?_⟩
          · obtain ⟨e, he⟩ := h
            cases he
          · rcases h with h | h
            · cases hsrv.symm.trans h
            · cases h

/-- A SOCKS5 extension that fails has changed nothing: after the UPDATE the row is found. -/
theorem extendSocks5_error (hupdate : env.update = .ok ()) (hread : env.read = .ok ())
    (h : extendSocks5 s req ref expected env = (.error e, s')) : s' = s := by
  simp only [extendSocks5, hupdate, hread] at h
  split at h
  · next hext =>
    cases h
    obtain ⟨rfl, -⟩ := extendSocks5Lease_error hext
    rfl
  · next lease socks hext =>
    obtain ⟨r, hr, -, -, -, rfl⟩ := extendSocks5Lease_ok hext
    rw [Socks5Table.read_updateWhere_of hr] at h
    cases h

/-- An extension that fails without a database error leaves both tables as they were, exactly if it is not the
    extension of a row whose peer is missing. -/
theorem failed_extension_keeps_rows_iff (hext : req.extendRef = some ref) (hupdate : env.update = .ok ())
    (hread : env.read = .ok ()) :
    (∀ e s', getWorkerConfig W s req env = (.error e, s') → s'.table = s.table ∧ s'.socks = s.socks) ↔
      ¬Stranded W s req ref env := by
  simp only [getWorkerConfig, hext]
  cases hexpected : req.extendExpiresAt with
  | none =>
    refine iff_of_true (fun e s' h => ?_) ?_
    · cases h
      exact ⟨rfl, rfl⟩
    · rintro ⟨-, _, _, -, -, h, -⟩
      cases hexpected.symm.trans h
  | some expected =>
    by_cases htype : req.leaseType = "wireguard"
    · simp only [if_pos htype]
      constructor
      · rintro hkeep ⟨-, peerId, r, hparse, hr, hreq, hlt, hmissing, hchange⟩
        cases hexpected.symm.trans hreq
        rcases extendWireguard_cases hupdate (Prod.mk.eta (p := extendWireguard W s req ref r.expiresAt env)).symm with
          ⟨-, hno⟩ | ⟨_, _, table, hparse', hr', -, -, hs', hget, herr⟩
        · exact hno peerId r hparse hr ⟨rfl, hlt⟩
        · cases hparse.symm.trans hparse'
          cases hr.symm.trans hr'
          obtain ⟨e, he⟩ := herr.mpr hmissing
          have hsame := (hkeep e _ (Prod.ext he hs')).1
          have hrow := hget peerId
          rw [if_pos rfl, show table = s.table from hsame, hr, Option.some.injEq] at hrow
          rcases hchange with hchange | hchange
          · exact hchange (congrArg WgRow.expiresAt hrow)
          · exact hchange (congrArg WgRow.updatedAt hrow)
      · intro hsafe e s' h
        rcases extendWireguard_cases hupdate h with ⟨rfl, -⟩ | ⟨peerId, r, table, hparse, hr, rfl, hlt, rfl, hget, herr⟩
        · exact ⟨rfl, rfl⟩
        · have hmissing := herr.mp ⟨e, rfl⟩
          refine ⟨Table.eq_of_get? fun k => (hget k).trans ?_, rfl⟩
          split
          · next hk =>
            subst hk
            rw [hr]
            by_contra hne
            refine hsafe ⟨htype, k, r, hparse, hr, hexpected, hlt, hmissing, ?_⟩
            by_contra hsame
            obtain ⟨h₁, h₂⟩ := not_or.mp hsame
            rw [← not_not.mp h₁, ← not_not.mp h₂] at hne
            exact hne rfl
          · rfl
    · simp only [if_neg htype]
      refine iff_of_true (fun e s' h => ?_) fun h => htype h.1
      split at h
      · rw [extendSocks5_error hupdate hread h]
        exact ⟨rfl, rfl⟩
      · cases h
        exact ⟨rfl, rfl⟩

end Extension

/-- A worker in CI mock mode, which has no server. -/
def Worker.mock : Worker := ⟨.known, { (Deployment.sample 1).config with ciMockWgContainer := true }, none⟩

/-- The stores of the mock worker after one allocation at 0 for 60 seconds. -/
def mockStores : Stores :=
  (getWorkerConfig .mock ⟨.fresh, .sample⟩ ⟨"wireguard", 60, false, "json", none, none⟩ (.sample 0 1)).2

def mockExtension : LeaseRequest := ⟨"wireguard", 60, false, "json", some "1", some 60000⟩

/-- The extension at 1000 fails, but the row has its new expiry. -/
theorem failed_extension_moves_expiry :
    ∃ s', getWorkerConfig .mock mockStores mockExtension (.sample 1000 1) = (.error serverNotAvailable, s') ∧
      (mockStores.table.get? 1).map (·.expiresAt) = some 60000 ∧ (s'.table.get? 1).map (·.expiresAt) = some 61000 := by
  refine ⟨_, Prod.ext ?_ rfl, ?_, ?_⟩
  · rfl
  · decide +kernel
  · decide +kernel

theorem failed_extension_keeps_rows_iff_sample :
    (∀ e s', getWorkerConfig .mock mockStores mockExtension (.sample 1000 1) = (.error e, s') →
        s'.table = mockStores.table ∧ s'.socks = mockStores.socks) ↔
      ¬Stranded .mock mockStores mockExtension "1" (.sample 1000 1) :=
  failed_extension_keeps_rows_iff rfl rfl rfl

end TpnWorker
