import TpnWorker.Concurrent.Socks5
import TpnWorker.Lib.Transition

/-! Passwords of exclusive slots. No lease, extension, cleanup or reload sets a password, so a pair that was
    once handed out is accepted for ever; it is rejected in time only if its slot is never leased again. -/

namespace TpnWorker
open Keyed Transition

/-- The pair of an exclusive lease is rejected once its slot is granted to another call. -/
def Rotated (s : SockSys) : Prop :=
  ∀ c c' l, s.leases c = some l → s.holder l.config.username = some c' → c' ≠ c →
    authenticate s.credentials l.config.username l.config.password = false

/-- No slot was granted twice. -/
def SockSys.Unrepeated (s : SockSys) : Prop := ∀ c l, s.leases c = some l → s.holder l.config.username = some c

/-- The call whose UPDATE takes a slot. -/
def SockAct.marks? : SockAct → Option ℕ
  | .call c (.mark _) => some c
  | _ => none

/-- The slot that an UPDATE takes was never granted before. -/
def FirstGrant (s : SockSys) (a : SockAct) : Prop :=
  ∀ c ∈ a.marks?, ∀ call ∈ s.calls c, ∀ config ∈ call.pc.marking?, s.holder config.username = none

instance (s : SockSys) (a : SockAct) : Decidable (FirstGrant s a) :=
  inferInstanceAs (Decidable (∀ c ∈ a.marks?, ∀ call ∈ s.calls c, ∀ config ∈ call.pc.marking?, _ = none))

/-- What every run keeps: the map has the passwords of the table, which are the ones handed out. -/
structure Accepted (s : SockSys) : Prop where
  loaded : s.credentials = loadFromDb s.table
  marking : ∀ {c call config}, s.calls c = some call → call.pc.marking? = some config →
    loadFromDb s.table config.username = some config.password
  ungranted : ∀ {c}, (∀ call, s.calls c = some call → ¬call.pc.Leased) → s.leases c = none
  lease : ∀ {c l}, s.leases c = some l → loadFromDb s.table l.config.username = some l.config.password
  granted : ∀ {c l}, s.leases c = some l → ∃ c', s.holder l.config.username = some c'
  holder : ∀ {u c}, s.holder u = some c → ∃ l, s.leases c = some l ∧ l.config.username = u

namespace Accepted
variable {N : Int} {s t : SockSys} {c : ℕ} {e : Int}

theorem start (t₀ : Socks5Table) (clock : Int) : Accepted (.start t₀ clock) where
  loaded := rfl
  marking h := by cases h
  ungranted _ := rfl
  lease h := by cases h
  granted h := by cases h
  holder h := by cases h

theorem goto {pc : SockPc} {lock : Option ℕ} (I : Accepted s) (hc : ∀ call, s.calls c = some call → ¬call.pc.Leased)
    (hmarking : ∀ config, pc.marking? = some config → loadFromDb s.table config.username = some config.password) :
    Accepted { s.goto c e pc with lock } where
  loaded := I.loaded
  marking {c' call config} h hm := by
    rcases Function.update_some_cases h with ⟨hne, heq⟩ | ⟨hne, h⟩
    · subst hne
      cases heq
      exact hmarking config hm
    · exact I.marking h hm
  ungranted {c'} h := by
    by_cases hne : c' = c
    · subst hne
      exact I.ungranted hc
    · exact I.ungranted fun call hcall => h call ((Function.update_of_ne hne _ s.calls).trans hcall)
  lease := I.lease
  granted := I.granted
  holder := I.holder

theorem of_load {table : Socks5Table} (I : Accepted s) (h : loadFromDb table = loadFromDb s.table) :
    Accepted { s with table } where
  loaded := I.loaded.trans h.symm
  marking hc hm := (congrFun h _).trans (I.marking hc hm)
  ungranted := I.ungranted
  lease hl := (congrFun h _).trans (I.lease hl)
  granted := I.granted
  holder := I.holder

theorem grant {config : Socks5Config} (I : Accepted s) (hc : s.calls c = some ⟨e, .marking config⟩) :
    Accepted { (s.goto c e (.leased config)).grant c config e with lock := none } where
  loaded := I.loaded
  marking {c' call cfg} h hm := by
    rcases Function.update_some_cases h with ⟨hne, heq⟩ | ⟨hne, h⟩
    · subst hne
      cases heq
      cases hm
    · exact I.marking h hm
  ungranted {c'} h := by
    by_cases hne : c' = c
    · subst hne
      exact (h _ (Function.update_self ..) trivial).elim
    · exact (Function.update_of_ne hne _ s.leases).trans
        (I.ungranted fun call hcall => h call ((Function.update_of_ne hne _ s.calls).trans hcall))
  lease {c' l} h := by
    rcases Function.update_some_cases h with ⟨hne, heq⟩ | ⟨hne, h⟩
    · subst hne
      cases heq
      exact I.marking hc rfl
    · exact I.lease h
  granted {c' l} h := by
    by_cases hu : l.config.username = config.username
    · refine ⟨c, ?_⟩
      rw [hu]
      exact Function.update_self ..
    · have hne : c' ≠ c := by
        rintro rfl
        cases (Function.update_self c' _ s.leases).symm.trans h
        exact hu rfl
      obtain ⟨c'', hh⟩ := I.granted ((Function.update_of_ne hne _ s.leases).symm.trans h)
      exact ⟨c'', (Function.update_of_ne hu _ s.holder).trans hh⟩
  holder {u c'} h := by
    rcases Function.update_some_cases h with ⟨hu, heq⟩ | ⟨hu, h⟩
    · subst hu
      cases heq
      exact ⟨_, Function.update_self .., rfl⟩
    · obtain ⟨l, hl, hname⟩ := I.holder h
      have hnone : s.leases c = none := I.ungranted fun call h => by
        cases hc.symm.trans h
        exact not_false
      have hne : c' ≠ c := by
        rintro rfl
        cases hnone.symm.trans hl
      exact ⟨l, (Function.update_of_ne hne _ s.leases).trans hl, hname⟩

theorem prolong {username : String} {new : Int} (I : Accepted s) : Accepted (s.prolong username new) where
  loaded := I.loaded
  marking := I.marking
  ungranted h := by
    show Option.map _ _ = none
    rw [I.ungranted h, Option.map_none]
  lease h := by
    obtain ⟨l₀, hl₀, rfl⟩ := Option.map_eq_some_iff.mp h
    have hload := I.lease hl₀
    split <;> exact hload
  granted h := by
    obtain ⟨l₀, hl₀, rfl⟩ := Option.map_eq_some_iff.mp h
    have hholder := I.granted hl₀
    split <;> exact hholder
  holder hh := by
    obtain ⟨l, hl, hname⟩ := I.holder hh
    refine ⟨_, congrArg (Option.map _) hl, ?_⟩
    split <;> exact hname

theorem callStep {a : SockCallAct} (I : Accepted s) (h : s.callStep N c a = some t) : Accepted t := by
  cases a with
  | start priority e =>
    obtain ⟨hc, rfl | rfl⟩ := SockStep.start_inv h <;>
      exact I.goto (fun _ h => by cases hc.symm.trans h) fun _ h => by cases h
  | pick choice =>
    obtain ⟨e, hc, rfl | ⟨config, -, rfl⟩⟩ := SockStep.pick_inv h <;>
      exact I.goto (fun _ h => by cases hc.symm.trans h; exact not_false) fun _ h => by cases h
  | handOut nowMs =>
    obtain ⟨e, config, hc, rfl⟩ := SockStep.handOut_inv h
    have J : Accepted (s.goto c e (.handedOut config)) :=
      I.goto (fun _ h => by cases hc.symm.trans h; exact not_false) fun _ h => by cases h
    exact J.of_load (loadFromDb_updateWhere fun _ => rfl)
  | acquire =>
    obtain ⟨e, hc, -, rfl⟩ := SockStep.acquire_inv h
    exact I.goto (fun _ h => by cases hc.symm.trans h; exact not_false) fun _ h => by cases h
  | lockTimeout =>
    obtain ⟨e, hc, rfl⟩ := SockStep.lockTimeout_inv h
    exact I.goto (fun _ h => by cases hc.symm.trans h; exact not_false) fun _ h => by cases h
  | select =>
    obtain ⟨e, pc, hc, -, hn, ⟨config, hsel, rfl⟩ | rfl | rfl⟩ := SockStep.select_inv h
    · refine I.goto (fun _ h => by cases hc.symm.trans h; exact hn) fun _ h => ?_
      cases h
      have hmem := (Socks5Table.mem_of_selectAvailable (List.mem_of_mem_head? hsel)).1
      rw [loadFromDb_apply, Socks5Table.read_eq_some_iff.mpr ⟨hmem, rfl⟩]
      rfl
    · exact I.goto (fun _ h => by cases hc.symm.trans h; exact hn) fun _ h => by cases h
    · exact I.goto (fun _ h => by cases hc.symm.trans h; exact hn) fun _ h => by cases h
  | cleanup =>
    obtain ⟨e, hc, rfl⟩ := SockStep.cleanup_inv h
    have J : Accepted (s.goto c e .reselecting) :=
      I.goto (fun _ h => by cases hc.symm.trans h; exact not_false) fun _ h => by cases h
    exact J.of_load (loadFromDb_updateWhere fun _ => rfl)
  | mark nowMs =>
    obtain ⟨e, config, hc, rfl⟩ := SockStep.mark_inv h
    exact (I.grant hc).of_load (loadFromDb_updateWhere fun _ => rfl)
  | dbError error =>
    obtain ⟨e, pc, hc, hn, ⟨-, rfl⟩ | ⟨-, rfl⟩⟩ := SockStep.dbError_inv h <;>
      exact I.goto (fun _ h => by cases hc.symm.trans h; exact hn) fun _ h => by cases h

theorem step {a : SockAct} (I : Accepted s) (h : s.step N a = some t) : Accepted t := by
  cases a with
  | tick now =>
    obtain ⟨-, rfl⟩ := SockStep.tick_inv h
    exact { I with }
  | call c a => exact I.callStep h
  | extend username expected new =>
    obtain rfl | ⟨r, -, -, -, rfl⟩ := SockStep.extend_inv h
    · exact I
    · exact I.prolong.of_load (loadFromDb_updateWhere fun _ => rfl)
  | cleanup =>
    cases h
    exact I.of_load (loadFromDb_updateWhere fun _ => rfl)
  | reload =>
    cases h
    exact { I with loaded := rfl }

theorem of_reach {C : SockSys → SockAct → Prop} {t₀ : Socks5Table} {clock : Int}
    (hr : Reach (SockSys.step N) C (.start t₀ clock) s) : Accepted s :=
  hr.inv (start t₀ clock) fun _ _ _ I _ h => I.step h

theorem authenticate_lease {l : SockLease} (I : Accepted s) (hl : s.leases c = some l) :
    authenticate s.credentials l.config.username l.config.password = true := by
  rw [authenticate_iff, I.loaded]
  exact I.lease hl

/-- So the pairs of earlier leases are rejected only if there are none. -/
theorem rotated_iff (I : Accepted s) : Rotated s ↔ s.Unrepeated := by
  constructor
  · intro hrot c l hl
    obtain ⟨c', hh⟩ := I.granted hl
    by_cases hne : c' = c
    · subst hne
      exact hh
    · cases (hrot c c' l hl hh hne).symm.trans (I.authenticate_lease hl)
  · intro hall c c' l hl hh hne
    cases hh.symm.trans (hall c l hl)
    exact absurd rfl hne

theorem unrepeated_mark {config : Socks5Config} {table : Socks5Table} (I : Accepted s)
    (hc : s.calls c = some ⟨e, .marking config⟩) :
    SockSys.Unrepeated { (s.goto c e (.leased config)).grant c config e with table, lock := none } ↔
      s.Unrepeated ∧ s.holder config.username = none := by
  have hnone : s.leases c = none := I.ungranted fun call h => by
    cases hc.symm.trans h
    exact not_false
  have hne : ∀ {c' l}, s.leases c' = some l → c' ≠ c := by
    rintro c' l hl rfl
    cases hnone.symm.trans hl
  constructor
  · intro hall
    -- a lease of the slot that was just granted would have lost it
    have hother : ∀ c' l, s.leases c' = some l → l.config.username ≠ config.username := by
      intro c' l hl hname
      have hh := hall c' l ((Function.update_of_ne (hne hl) _ s.leases).trans hl)
      rw [hname] at hh
      cases (Function.update_self config.username _ s.holder).symm.trans hh
      exact hne hl rfl
    refine ⟨fun c' l hl => ?_, ?_⟩
    · exact (Function.update_of_ne (hother c' l hl) _ s.holder).symm.trans
        (hall c' l ((Function.update_of_ne (hne hl) _ s.leases).trans hl))
    · cases hh : s.holder config.username with
      | none => rfl
      | some c' =>
        obtain ⟨l, hl, hname⟩ := I.holder hh
        exact absurd hname (hother c' l hl)
  · rintro ⟨hall, hfree⟩ c' l hl
    rcases Function.update_some_cases hl with ⟨hcc, heq⟩ | ⟨hcc, hl⟩
    · subst hcc
      cases heq
      exact Function.update_self ..
    · have hh := hall c' l hl
      have hname : l.config.username ≠ config.username := by
        intro hname
        rw [hname, hfree] at hh
        cases hh
      exact (Function.update_of_ne hname _ s.holder).trans hh

theorem unrepeated_of_configs (hall : s.Unrepeated) (hholder : t.holder = s.holder)
    (hconfigs : ∀ c, (t.leases c).map (·.config) = (s.leases c).map (·.config)) : t.Unrepeated := by
  intro c l hl
  obtain ⟨l', hl', heq⟩ := Option.map_eq_some_iff.mp ((hconfigs c).symm.trans (congrArg _ hl))
  replace heq : l'.config = l.config := heq
  rw [hholder, ← heq]
  exact hall c l' hl'

/-- After a step no slot was granted twice if that was so before and the step grants a slot for the first time. -/
theorem unrepeated_step {a : SockAct} (I : Accepted s) (h : s.step N a = some t) :
    t.Unrepeated ↔ s.Unrepeated ∧ FirstGrant s a := by
  cases a with
  | tick now =>
    obtain ⟨-, rfl⟩ := SockStep.tick_inv h
    exact ⟨fun hall => ⟨hall, fun _ h => by cases h⟩, fun hall => hall.1⟩
  | extend username expected new =>
    obtain rfl | ⟨r, -, -, -, rfl⟩ := SockStep.extend_inv h
    · exact ⟨fun hall => ⟨hall, fun _ h => by cases h⟩, fun hall => hall.1⟩
    · have hconfigs : ∀ c, ((s.prolong username new).leases c).map (·.config) = (s.leases c).map (·.config) := by
        intro c
        rw [SockSys.prolong, Option.map_map]
        refine Option.map_congr fun l _ => ?_
        simp only [Function.comp_apply]
        split <;> rfl
      exact ⟨fun hall => ⟨unrepeated_of_configs hall rfl fun c => (hconfigs c).symm, fun _ h => by cases h⟩,
        fun hall => unrepeated_of_configs hall.1 rfl hconfigs⟩
  | cleanup =>
    cases h
    exact ⟨fun hall => ⟨hall, fun _ h => by cases h⟩, fun hall => hall.1⟩
  | reload =>
    cases h
    exact ⟨fun hall => ⟨hall, fun _ h => by cases h⟩, fun hall => hall.1⟩
  | call c a =>
    replace h : s.callStep N c a = some t := h
    cases a with
    | mark nowMs =>
      obtain ⟨e, config, hc, rfl⟩ := SockStep.mark_inv h
      refine (I.unrepeated_mark hc).trans (and_congr_right fun _ => ⟨fun hfree => ?_, fun hfirst => ?_⟩)
      · rintro _ ⟨⟩ call hcall cfg hcfg
        cases hc.symm.trans hcall
        cases hcfg
        exact hfree
      · exact hfirst c rfl _ hc config rfl
    | start priority e =>
      obtain ⟨-, rfl | rfl⟩ := SockStep.start_inv h <;>
        exact ⟨fun hall => ⟨hall, fun _ h => by cases h⟩, fun hall => hall.1⟩
    | pick choice =>
      obtain ⟨e, -, rfl | ⟨config, -, rfl⟩⟩ := SockStep.pick_inv h <;>
        exact ⟨fun hall => ⟨hall, fun _ h => by cases h⟩, fun hall => hall.1⟩
    | handOut nowMs =>
      obtain ⟨e, config, -, rfl⟩ := SockStep.handOut_inv h
      exact ⟨fun hall => ⟨hall, fun _ h => by cases h⟩, fun hall => hall.1⟩
    | acquire =>
      obtain ⟨e, -, -, rfl⟩ := SockStep.acquire_inv h
      exact ⟨fun hall => ⟨hall, fun _ h => by cases h⟩, fun hall => hall.1⟩
    | lockTimeout =>
      obtain ⟨e, -, rfl⟩ := SockStep.lockTimeout_inv h
      exact ⟨fun hall => ⟨hall, fun _ h => by cases h⟩, fun hall => hall.1⟩
    | select =>
      obtain ⟨e, pc, -, -, -, ⟨config, -, rfl⟩ | rfl | rfl⟩ := SockStep.select_inv h <;>
        exact ⟨fun hall => ⟨hall, fun _ h => by cases h⟩, fun hall => hall.1⟩
    | cleanup =>
      obtain ⟨e, -, rfl⟩ := SockStep.cleanup_inv h
      exact ⟨fun hall => ⟨hall, fun _ h => by cases h⟩, fun hall => hall.1⟩
    | dbError error =>
      obtain ⟨e, pc, -, -, ⟨-, rfl⟩ | ⟨-, rfl⟩⟩ := SockStep.dbError_inv h <;>
        exact ⟨fun hall => ⟨hall, fun _ h => by cases h⟩, fun hall => hall.1⟩

/-- The run to a state granted every slot for the first time if no slot was granted twice by then. -/
theorem unrepeated_iff {t₀ : Socks5Table} {clock : Int}
    (hr : Reach (SockSys.step N) (fun _ _ => True) (.start t₀ clock) s) :
    s.Unrepeated ↔ Reach (SockSys.step N) FirstGrant (.start t₀ clock) s := by
  constructor
  · intro hall
    induction hr with
    | refl => exact .refl
    | step a hr _ h ih =>
      obtain ⟨hall, hfirst⟩ := ((of_reach hr).unrepeated_step h).mp hall
      exact (ih hall).step a hfirst h
  · intro hfirst
    exact hfirst.inv_of_reached (fun _ _ h => by cases h) fun _ _ _ hr hall hfirst h =>
      ((of_reach hr).unrepeated_step h).mpr ⟨hall, hfirst⟩

end Accepted

section Rotated
variable {N clock : Int} {t₀ : Socks5Table} {s : SockSys}

/-- The pairs of all earlier leases are rejected exactly in the runs that never grant a slot again. -/
theorem rotated_iff_first_grants (hr : Reach (SockSys.step N) (fun _ _ => True) (.start t₀ clock) s) :
    Rotated s ↔ Reach (SockSys.step N) FirstGrant (.start t₀ clock) s :=
  (Accepted.of_reach hr).rotated_iff.trans (Accepted.unrepeated_iff hr)

/-- The one exclusive slot is leased until 100 and, after a cleanup and a reload at 200, leased again. -/
def leasedAgain : List SockAct :=
  SockAct.lease 1 100 ++ [.tick 200, .cleanup, .reload] ++ SockAct.lease 2 1000

theorem expired_password_accepted :
    ∃ s l, Reach (SockSys.step 1) (fun _ _ => True) (.start .sample 0) s ∧ s.leases 1 = some l ∧
      l.expiresAt ≤ s.clock ∧ s.holder l.config.username = some 2 ∧
      authenticate s.credentials l.config.username l.config.password = true ∧ ¬Rotated s := by
  have hrun : (exec (SockSys.step 1) (.start .sample 0) leasedAgain).any fun s => decide
      (∃ l ∈ s.leases 1, l.expiresAt ≤ s.clock ∧ s.holder l.config.username = some 2 ∧
        authenticate s.credentials l.config.username l.config.password = true) := by
    decide +kernel
  obtain ⟨s, hs, hfacts⟩ := (Option.any_eq_true _ _).mp hrun
  obtain ⟨l, hl, hover, hholder, hauth⟩ := of_decide_eq_true hfacts
  refine ⟨s, l, Reach.of_exec (fun _ _ => trivial) hs, hl, hover, hholder, hauth, fun hrot => ?_⟩
  cases (hrot 1 2 l hl hholder (by decide)).symm.trans hauth

theorem rotated_iff_first_grants_sample :
    ∃ s : SockSys, (s.leases 1).isSome = true ∧
      (Rotated s ↔ Reach (SockSys.step 1) FirstGrant (.start .sample 0) s) := by
  have hrun : (exec (SockSys.step 1) (.start .sample 0) (SockAct.lease 1 100)).any fun s => (s.leases 1).isSome := by
    decide +kernel
  obtain ⟨s, hs, hlease⟩ := (Option.any_eq_true _ _).mp hrun
  exact ⟨s, hlease, rotated_iff_first_grants (Reach.of_exec (fun _ _ => trivial) hs)⟩

end Rotated

end TpnWorker
