import TpnWorker.Concurrent.Slots
import TpnWorker.Theorems.Extensions

/-! Extensions of unexpired SOCKS5 leases. A client names its lease by the username and the expiry that it was
    told, and the row has one expiry: when the slot is handed out again, whoever held it before can no longer
    extend its lease. -/

namespace TpnWorker
open Keyed Transition

/-- The UPDATE of a call that is granted the username `u` until `e`. -/
inductive Grants (u : String) (e : Int) (s : SockSys) : (exclusive : Bool) → SockAct → Prop
  | handOut {c : ℕ} {nowMs : Int} {config : Socks5Config} : s.calls c = some ⟨e, .updating config⟩ →
      config.username = u → Grants u e s false (.call c (.handOut nowMs))
  | mark {c : ℕ} {nowMs : Int} {config : Socks5Config} : s.calls c = some ⟨e, .marking config⟩ →
      config.username = u → Grants u e s true (.call c (.mark nowMs))

/-- The step writes another expiry than `e` into the row of `u`: an extension that names both, the UPDATE of a
    priority request or, unless the lease is exclusive, the one of an exclusive request. -/
inductive Overwrites (u : String) (e : Int) (exclusive : Bool) (s : SockSys) : SockAct → Prop
  | extend {new : Int} : new ≠ e → Overwrites u e exclusive s (.extend u e new)
  | handOut {c : ℕ} {nowMs e' : Int} {config : Socks5Config} : s.calls c = some ⟨e', .updating config⟩ →
      config.username = u → e' ≠ e → Overwrites u e exclusive s (.call c (.handOut nowMs))
  | mark {c : ℕ} {nowMs e' : Int} {config : Socks5Config} : exclusive = false →
      s.calls c = some ⟨e', .marking config⟩ → config.username = u → e' ≠ e →
      Overwrites u e exclusive s (.call c (.mark nowMs))

/-- The row of `u` carries the expiry `e`, and is taken if the lease is exclusive. -/
def Carries (u : String) (e : Int) (exclusive : Bool) (t : Socks5Table) : Prop :=
  ∃ r, readSocks5ConfigByUsername t u = some r ∧ r.expiresAt = e ∧ (exclusive = true → r.available = false)

section Slot
variable {N clock e : Int} {t₀ : Socks5Table} {s s₁ s₂ t : SockSys} {a : SockAct} {u : String} {exclusive : Bool}

theorem Grants.carries (I : Slotted s) (hg : Grants u e s exclusive a) (h : s.step N a = some t) :
    Carries u e exclusive t.table := by
  cases hg with
  | handOut hc hu =>
    subst hu
    obtain ⟨e', config, hc', rfl⟩ := SockStep.handOut_inv (N := N) h
    cases hc.symm.trans hc'
    obtain ⟨r, hr⟩ := I.picked hc rfl
    refine ⟨_, Socks5Table.read_updateWhere_of hr, ?_, fun h => by cases h⟩
    rw [if_pos (decide_eq_true (Socks5Table.read_eq_some_iff.mp hr).2)]
  | mark hc hu =>
    subst hu
    obtain ⟨e', config, hc', rfl⟩ := SockStep.mark_inv (N := N) h
    cases hc.symm.trans hc'
    obtain ⟨r, -, -, hmarked⟩ := I.read_markUnavailable hc _
    exact ⟨_, hmarked, rfl, fun _ => rfl⟩

theorem carries_updateWhere {table : Socks5Table} {p : Socks5Config → Bool} {set : Socks5Update} {e' : Int} {r : Socks5Config}
    (hr : readSocks5ConfigByUsername table u = some r) (hexp : r.expiresAt = e) (htaken : exclusive = true → r.available = false)
    (hset : ∀ r, (set.set r).expiresAt = e')
    (havail : exclusive = true → p r = true → r.available = false → (set.set r).available = false) :
    Carries u e exclusive (table.updateWhere p set) ↔ (p r = true → e' = e) := by
  constructor
  · rintro ⟨r', hr', hexp', -⟩ hp
    rw [Socks5Table.read_updateWhere_of hr, if_pos hp, Option.some.injEq] at hr'
    rw [← hset r, hr', hexp']
  · intro hkeep
    refine ⟨_, Socks5Table.read_updateWhere_of hr, ?_⟩
    split
    · next hp => exact ⟨(hset r).trans (hkeep hp), fun hx => havail hx hp (htaken hx)⟩
    · exact ⟨hexp, htaken⟩

/-- A step before `e` leaves the expiry `e` in the row, unless it overwrites it. -/
theorem carries_step (I : Slotted s) (hlive : s.clock < e) (hcarries : Carries u e exclusive s.table)
    (h : s.step N a = some t) : Carries u e exclusive t.table ↔ ¬Overwrites u e exclusive s a := by
  obtain ⟨r, hr, hexp, htaken⟩ := hcarries
  obtain ⟨-, hname⟩ := Socks5Table.read_eq_some_iff.mp hr
  have hslots := slotsStep h
  generalize t.table = table at hslots ⊢
  cases hslots with
  | same hne => exact iff_of_true ⟨r, hr, hexp, htaken⟩ fun ho => by cases ho <;> exact hne trivial
  | cleanup hne =>
    refine iff_of_true ⟨r, ?_, hexp, htaken⟩ fun ho => by cases ho <;> exact hne trivial
    refine (Socks5Table.read_updateWhere_of hr).trans (congrArg some (if_neg fun hp => ?_))
    exact absurd (hexp ▸ (of_decide_eq_true hp).2) (not_le.mpr hlive)
  | refused hno =>
    refine iff_of_true ⟨r, hr, hexp, htaken⟩ fun ho => ?_
    cases ho
    exact hno r hr ⟨hexp, hexp ▸ hlive⟩
  | @extend name new r' hr' hlive' =>
    rw [carries_updateWhere hr hexp htaken (fun _ => rfl) fun _ _ h => h]
    constructor
    · rintro hkeep ho
      generalize ha : SockAct.extend name r'.expiresAt new = a at ho
      cases ho with
      | extend hne =>
        rw [SockAct.extend.injEq] at ha
        obtain ⟨rfl, hexp', rfl⟩ := ha
        exact hne (hkeep (decide_eq_true ⟨hname, hexp.trans hexp'.symm, hexp ▸ hlive⟩))
      | _ => cases ha
    · intro hnot hp
      obtain ⟨hname', hexp', -⟩ := of_decide_eq_true hp
      obtain rfl := hname'.symm.trans hname
      obtain rfl := hexp'.symm.trans hexp
      by_contra hne
      exact hnot (.extend hne)
  | @handOut c nowMs e' config hc =>
    rw [updatePriority, carries_updateWhere hr hexp htaken (fun _ => rfl) fun _ _ h => h]
    constructor
    · rintro hkeep (_ | ⟨hc', hu, hne⟩ | _)
      cases hc'.symm.trans hc
      exact hne (hkeep (decide_eq_true (hname.trans hu.symm)))
    · intro hnot hp
      by_contra hne
      exact hnot (.handOut hc ((of_decide_eq_true hp).symm.trans hname) hne)
  | @mark c nowMs e' config hc =>
    rw [markUnavailable, carries_updateWhere hr hexp htaken (fun _ => rfl) fun _ _ _ => rfl]
    constructor
    · rintro hkeep (_ | _ | ⟨hx, hc', hu, hne⟩)
      cases hc'.symm.trans hc
      obtain ⟨r', hr', -, hpass⟩ := I.marking hc rfl
      cases (hu ▸ hr').symm.trans hr
      exact hne (hkeep (decide_eq_true ⟨hname.trans hu.symm, hpass⟩))
    · intro hnot hp
      have hu : config.username = u := (of_decide_eq_true hp).1.symm.trans hname
      -- the row that is about to be taken is free, so the lease is not exclusive
      obtain ⟨r', hr', havail, -⟩ := I.marking hc rfl
      cases (hu ▸ hr').symm.trans hr
      have hx : exclusive = false := by
        cases hex : exclusive with
        | false => rfl
        | true => cases havail.symm.trans (htaken hex)
      by_contra hne
      exact hnot (.mark hx hc hu hne)

/-- A run that does not overwrite the expiry leaves it in the row until it has passed. -/
theorem carries_reach (I : Slotted s₁) (hcarries : Carries u e exclusive s₁.table)
    (hr : Reach (SockSys.step N) (fun s a => ¬Overwrites u e exclusive s a) s₁ s₂) (hlive : s₂.clock < e) :
    Carries u e exclusive s₂.table := by
  refine (hr.inv (I := fun s => Slotted s ∧ (s.clock < e → Carries u e exclusive s.table)) ⟨I, fun _ => hcarries⟩ ?_).2 hlive
  intro s a t hs hnot h
  refine ⟨hs.1.step h, fun hlive => ?_⟩
  have hbefore := (SockStep.clock_le h).trans_lt hlive
  exact (carries_step hs.1 hbefore (hs.2 hbefore) h).mpr hnot

theorem extendSocks5_of_carries {st : Stores} {req : LeaseRequest} {env : LeaseEnv}
    (hcarries : Carries u e exclusive st.socks) (hlive : env.updateMs < e) (hupdate : env.update = .ok ())
    (hread : env.read = .ok ()) : ∃ result st', extendSocks5 st req u e env = (.ok result, st') ∧
      result.leaseExpiresAt = newExpiresAt env.nowMs req.leaseSeconds := by
  obtain ⟨r, hr, hexp, -⟩ := hcarries
  simp only [extendSocks5, hupdate, hread]
  split
  · next hext => exact absurd ⟨hexp, hexp ▸ hlive⟩ (extendSocks5Lease_refused hext hr)
  · next lease socks hext =>
    obtain ⟨r', hr', -, -, rfl, rfl⟩ := extendSocks5Lease_ok hext
    rw [Socks5Table.read_updateWhere_of hr']
    exact ⟨_, _, rfl, rfl⟩

/-- A client that was granted the username `u` until `e` extends its lease before `e`, in every run in which no
    step since has written another expiry into the row. -/
theorem live_slot_extendable {W : Worker} {st : Stores} {req : LeaseRequest} {env : LeaseEnv}
    (hr : Reach (SockSys.step N) (fun _ _ => True) (.start t₀ clock) s) (hgrant : Grants u e s exclusive a)
    (h : s.step N a = some s₁) (hsince : Reach (SockSys.step N) (fun s a => ¬Overwrites u e exclusive s a) s₁ s₂)
    (hlive : s₂.clock < e) (hst : st.socks = s₂.table) (htype : req.leaseType = "socks5") (hext : req.extendRef = some u)
    (hexpected : req.extendExpiresAt = some e) (hnow : env.updateMs = s₂.clock) (hupdate : env.update = .ok ())
    (hread : env.read = .ok ()) :
    ∃ result st', getWorkerConfig W st req env = (.ok result, st') ∧
      result.leaseExpiresAt = newExpiresAt env.nowMs req.leaseSeconds := by
  have I : Slotted s := .of_reach hr
  have hcarries := carries_reach (I.step h) (hgrant.carries I h) hsince hlive
  simp only [getWorkerConfig, hext, hexpected]
  rw [if_neg (by rw [htype]; decide), if_pos htype]
  exact extendSocks5_of_carries (hst ▸ hcarries) (hnow ▸ hlive) hupdate hread

end Slot

/-- Two priority requests that are handed out the slot `u_a`. -/
def sharedSlot : List SockAct :=
  [.call 1 (.start true 100), .call 1 (.pick 0), .call 1 (.handOut 0), .call 2 (.start true 200), .call 2 (.pick 0),
    .call 2 (.handOut 0)]

/-- The first client extends its lease. -/
def sharedExtension : LeaseRequest := ⟨"socks5", 60, true, "json", some "u_a", some 100⟩

/-- The second request leaves the first client unable to extend its lease, 100 milliseconds before it ends. -/
theorem shared_slot_not_extendable :
    ∃ s s₁ s₂ : SockSys, Reach (SockSys.step 1) (fun _ _ => True) (.start .sample 0) s ∧
      Grants "u_a" 100 s false (.call 1 (.handOut 0)) ∧ s.step 1 (.call 1 (.handOut 0)) = some s₁ ∧
      Reach (SockSys.step 1) (fun _ a => ∃ act, a = .call 2 act) s₁ s₂ ∧ s₂.clock = 0 ∧
      ∀ result st, getWorkerConfig .mock ⟨.fresh, s₂.table⟩ sharedExtension (.sample 0 1) ≠ (.ok result, st) := by
  have hrun : (exec (SockSys.step 1) (.start .sample 0) (sharedSlot.take 2)).any fun s => decide
      (s.calls 1 = some ⟨100, .updating ⟨1, "203.0.113.7", 1080, "u_a", "p_a", true, 0, 0⟩⟩ ∧
        ∃ s₁ ∈ s.step 1 (.call 1 (.handOut 0)), ∃ s₂ ∈ exec (SockSys.step 1) s₁ (sharedSlot.drop 3), s₂.clock = 0 ∧
          (getWorkerConfig .mock ⟨.fresh, s₂.table⟩ sharedExtension (.sample 0 1)).1.toOption.isNone) := by
    decide +kernel
  obtain ⟨s, hs, hfacts⟩ := (Option.any_eq_true _ _).mp hrun
  obtain ⟨hcall, s₁, h₁, s₂, h₂, hclock, hnone⟩ := of_decide_eq_true hfacts
  refine ⟨s, s₁, s₂, Reach.of_exec (fun _ _ => trivial) hs, .handOut hcall rfl, h₁, Reach.of_exec ?_ h₂, hclock, ?_⟩
  · simp [sharedSlot]
  · intro result st hok
    rw [hok] at hnone
    cases hnone

/-- An exclusive lease that is extended while a priority request is handed out another slot. -/
theorem live_slot_extendable_sample :
    ∃ s₂ result st, getWorkerConfig .mock ⟨.fresh, SockSys.table s₂⟩
      ⟨"socks5", 60, false, "json", some "u_b", some 100⟩ (.sample 0 1) = (.ok result, st) ∧
        result.leaseExpiresAt = newExpiresAt 0 60 := by
  have hrun : (exec (SockSys.step 1) (.start .sample 0) ((SockAct.lease 3 100).take 3)).any fun s => decide
      (s.calls 3 = some ⟨100, .marking ⟨2, "203.0.113.7", 1080, "u_b", "p_b", true, 0, 0⟩⟩ ∧
        ∃ s₁ ∈ s.step 1 (.call 3 (.mark 0)), ∃ u ∈ exec (SockSys.step 1) s₁ (sharedSlot.take 2),
          u.calls 1 = some ⟨100, .updating ⟨1, "203.0.113.7", 1080, "u_a", "p_a", true, 0, 0⟩⟩ ∧
          ∃ s₂ ∈ u.step 1 (.call 1 (.handOut 0)), s₂.clock = 0) := by
    decide +kernel
  obtain ⟨s, hs, hfacts⟩ := (Option.any_eq_true _ _).mp hrun
  obtain ⟨hcall, s₁, h₁, u, hu, hother, s₂, h₂, hclock⟩ := of_decide_eq_true hfacts
  have hsince : Reach (SockSys.step 1) (fun s a => ¬Overwrites "u_b" 100 true s a) s₁ u := by
    refine (Reach.of_exec (E := fun a => a = .call 1 (.start true 100) ∨ a = .call 1 (.pick 0)) ?_ hu).mono ?_
    · simp [sharedSlot]
    · rintro s a (rfl | rfl) ho <;> cases ho
  refine ⟨s₂, live_slot_extendable (Reach.of_exec (fun _ _ => trivial) hs) (.mark hcall rfl) h₁
    (hsince.step (.call 1 (.handOut 0)) ?_ h₂) (by rw [hclock]; decide) rfl rfl rfl rfl hclock.symm rfl rfl⟩
  rintro (_ | ⟨hc, hname, -⟩ | _)
  cases hother.symm.trans hc
  exact absurd hname (by decide)

end TpnWorker
