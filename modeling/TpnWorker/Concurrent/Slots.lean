import TpnWorker.Concurrent.Socks5
import TpnWorker.Lib.Transition

/-! The rows of the SOCKS5 calls under way, in every run from any table, and the rows of the exclusive leases, in
    every run in which no priority request is handed out a slot that was leased exclusively. -/

namespace TpnWorker
open Keyed Transition

/-- What every run keeps: a row that was picked is in the table, and the one of the lock's holder is free. -/
structure Slotted (s : SockSys) : Prop where
  locked : ∀ {c call}, s.calls c = some call → call.pc.Locked → s.lock = some c
  picked : ∀ {c call config}, s.calls c = some call → call.pc.priority? = some config →
    ∃ r, readSocks5ConfigByUsername s.table config.username = some r
  marking : ∀ {c call config}, s.calls c = some call → call.pc.marking? = some config →
    ∃ r, readSocks5ConfigByUsername s.table config.username = some r ∧ r.available = true ∧
      r.password = config.password
  ungranted : ∀ {c}, (∀ call, s.calls c = some call → ¬call.pc.Leased) → s.leases c = none

namespace Slotted
variable {N : Int} {s t : SockSys} {c : ℕ} {e : Int}

theorem start (t₀ : Socks5Table) (clock : Int) : Slotted (.start t₀ clock) where
  locked h := by cases h
  picked h := by cases h
  marking h := by cases h
  ungranted _ := rfl

theorem goto {pc : SockPc} {lock : Option ℕ} (I : Slotted s) (hc : ∀ call, s.calls c = some call → ¬call.pc.Leased)
    (hlock : pc.Locked → lock = some c) (hkeep : ∀ c', c' ≠ c → s.lock = some c' → lock = some c')
    (hpicked : ∀ config, pc.priority? = some config → ∃ r, readSocks5ConfigByUsername s.table config.username = some r)
    (hmarking : ∀ config, pc.marking? = some config → ∃ r, readSocks5ConfigByUsername s.table config.username = some r ∧
      r.available = true ∧ r.password = config.password) :
    Slotted { s.goto c e pc with lock } where
  locked {c' call} h hl := by
    obtain ⟨rfl, rfl⟩ | ⟨hne, h⟩ := SockSys.calls_goto h
    · exact hlock hl
    · exact hkeep c' hne (I.locked h hl)
  picked h hp := by
    obtain ⟨rfl, rfl⟩ | ⟨-, h⟩ := SockSys.calls_goto h
    · exact hpicked _ hp
    · exact I.picked h hp
  marking h hm := by
    obtain ⟨rfl, rfl⟩ | ⟨-, h⟩ := SockSys.calls_goto h
    · exact hmarking _ hm
    · exact I.marking h hm
  ungranted {c'} h := by
    by_cases hne : c' = c
    · subst hne
      exact I.ungranted hc
    · exact I.ungranted fun call hcall => h call ((Function.update_of_ne hne _ s.calls).trans hcall)

theorem goto_idle {pc : SockPc} (I : Slotted s) (hc : ∀ call, s.calls c = some call → ¬call.pc.Leased)
    (hl : ¬pc.Locked) (hp : pc.priority? = none) (hm : pc.marking? = none) : Slotted (s.goto c e pc) :=
  I.goto hc (fun h => absurd h hl) (fun _ _ h => h) (fun _ h => by cases hp.symm.trans h) fun _ h => by
    cases hm.symm.trans h

theorem goto_locked {pc pc' : SockPc} {lock : Option ℕ} (I : Slotted s) (hc : s.calls c = some ⟨e, pc⟩) (hl : pc.Locked)
    (hn : ¬pc.Leased) (hlock : pc'.Locked → lock = some c) (hp : pc'.priority? = none) (hm : pc'.marking? = none) :
    Slotted { s.goto c e pc' with lock } :=
  I.goto (fun _ h => by cases hc.symm.trans h; exact hn) hlock
    (fun _ hne h => absurd (Option.some.inj (h.symm.trans (I.locked hc hl))) hne) (fun _ h => by cases hp.symm.trans h)
    fun _ h => by cases hm.symm.trans h

theorem updateWhere {p : Socks5Config → Bool} {set : Socks5Update} (I : Slotted s)
    (hpass : ∀ r, (set.set r).password = r.password)
    (havail : ∀ r, r.available = true → (set.set r).available = true) :
    Slotted { s with table := s.table.updateWhere p set } where
  locked := I.locked
  picked hc hp := by
    obtain ⟨r, hr⟩ := I.picked hc hp
    exact ⟨_, Socks5Table.read_updateWhere_of hr⟩
  marking hc hm := by
    obtain ⟨r, hr, ha, hpw⟩ := I.marking hc hm
    refine ⟨_, Socks5Table.read_updateWhere_of hr, ?_⟩
    split
    · exact ⟨havail r ha, (hpass r).trans hpw⟩
    · exact ⟨ha, hpw⟩
  ungranted := I.ungranted

theorem not_locked {pc : SockPc} {c' : ℕ} {call : SockCall} (I : Slotted s) (hc : s.calls c = some ⟨e, pc⟩) (hl : pc.Locked)
    (hne : c' ≠ c) (hcall : s.calls c' = some call) : ¬call.pc.Locked := fun h =>
  absurd (Option.some.inj ((I.locked hcall h).symm.trans (I.locked hc hl))) hne

theorem not_marking {pc : SockPc} {c' : ℕ} {call : SockCall} (I : Slotted s) (hc : s.calls c = some ⟨e, pc⟩) (hl : pc.Locked)
    (hne : c' ≠ c) (hcall : s.calls c' = some call) : call.pc.marking? = none := by
  have hnot := I.not_locked hc hl hne hcall
  cases hpc : call.pc with
  | marking _ =>
    rw [hpc] at hnot
    exact absurd trivial hnot
  | _ => rfl

theorem read_markUnavailable {config : Socks5Config} (I : Slotted s) (hc : s.calls c = some ⟨e, .marking config⟩)
    (nowMs : Int) :
    ∃ r, readSocks5ConfigByUsername s.table config.username = some r ∧ r.available = true ∧
      readSocks5ConfigByUsername (markUnavailable s.table config e nowMs) config.username =
        some { r with available := false, expiresAt := e, updated := nowMs } := by
  obtain ⟨r, hr, havail, hpass⟩ := I.marking hc rfl
  refine ⟨r, hr, havail, (Socks5Table.read_updateWhere_of hr).trans ?_⟩
  rw [if_pos (decide_eq_true ⟨(Socks5Table.read_eq_some_iff.mp hr).2, hpass⟩)]

/-- The UPDATE of an exclusive lease, by the call that holds the lock. -/
theorem mark {config : Socks5Config} {nowMs : Int} (I : Slotted s) (hc : s.calls c = some ⟨e, .marking config⟩) :
    Slotted { (s.goto c e (.leased config)).grant c config e with
      table := markUnavailable s.table config e nowMs, lock := none } where
  locked {c' call} h hl := by
    obtain ⟨rfl, rfl⟩ | ⟨hne, h⟩ := SockSys.calls_goto h
    · exact hl.elim
    · exact (I.not_locked hc trivial hne h hl).elim
  picked h hp := by
    obtain ⟨rfl, rfl⟩ | ⟨-, h⟩ := SockSys.calls_goto h
    · cases hp
    · obtain ⟨r, hr⟩ := I.picked h hp
      exact ⟨_, Socks5Table.read_updateWhere_of hr⟩
  marking {c' call cfg} h hm := by
    obtain ⟨rfl, rfl⟩ | ⟨hne, h⟩ := SockSys.calls_goto h
    · cases hm
    · cases (I.not_marking hc trivial hne h).symm.trans hm
  ungranted {c'} h := by
    by_cases hne : c' = c
    · subst hne
      exact (h _ (Function.update_self ..) trivial).elim
    · exact (Function.update_of_ne hne _ s.leases).trans
        (I.ungranted fun call hcall => h call ((Function.update_of_ne hne _ s.calls).trans hcall))

theorem prolong {username : String} {new : Int} (I : Slotted s) : Slotted (s.prolong username new) where
  locked := I.locked
  picked := I.picked
  marking := I.marking
  ungranted h := by
    show Option.map _ _ = none
    rw [I.ungranted h, Option.map_none]

theorem callStep {a : SockCallAct} (I : Slotted s) (h : s.callStep N c a = some t) : Slotted t := by
  cases a with
  | start priority e =>
    obtain ⟨hc, rfl | rfl⟩ := SockStep.start_inv h <;>
      exact I.goto_idle (fun _ h => by cases hc.symm.trans h) not_false rfl rfl
  | pick choice =>
    obtain ⟨e, hc, rfl | ⟨config, hmem, rfl⟩⟩ := SockStep.pick_inv h
    · exact I.goto_idle (fun _ h => by cases hc.symm.trans h; exact not_false) not_false rfl rfl
    · refine I.goto (fun _ h => by cases hc.symm.trans h; exact not_false) (fun h => h.elim) (fun _ _ h => h)
        (fun _ h => ?_) (fun _ h => by cases h)
      cases h
      exact ⟨config, Socks5Table.read_eq_some_iff.mpr ⟨(Socks5Table.mem_of_selectAvailable hmem).1, rfl⟩⟩
  | handOut nowMs =>
    obtain ⟨e, config, hc, rfl⟩ := SockStep.handOut_inv h
    have J : Slotted (s.goto c e (.handedOut config)) := by
      refine I.goto (fun _ h => by cases hc.symm.trans h; exact not_false) (fun h => h.elim) (fun _ _ h => h)
        (fun _ h => ?_) (fun _ h => by cases h)
      cases h
      exact I.picked hc rfl
    exact J.updateWhere (fun _ => rfl) fun _ h => h
  | acquire =>
    obtain ⟨e, hc, hfree, rfl⟩ := SockStep.acquire_inv h
    refine I.goto (fun _ h => by cases hc.symm.trans h; exact not_false) (fun _ => rfl) (fun _ _ h => ?_)
      (fun _ h => by cases h) (fun _ h => by cases h)
    cases hfree.symm.trans h
  | lockTimeout =>
    obtain ⟨e, hc, rfl⟩ := SockStep.lockTimeout_inv h
    exact I.goto_idle (fun _ h => by cases hc.symm.trans h; exact not_false) not_false rfl rfl
  | select =>
    obtain ⟨e, pc, hc, hl, hn, ⟨config, hsel, rfl⟩ | rfl | rfl⟩ := SockStep.select_inv h
    · refine I.goto (fun _ h => by cases hc.symm.trans h; exact hn) (fun _ => I.locked hc hl) (fun _ _ h => h)
        (fun _ h => by cases h) (fun _ h => ?_)
      cases h
      obtain ⟨hmem, havail⟩ := Socks5Table.mem_of_selectAvailable (List.mem_of_mem_head? hsel)
      exact ⟨config, Socks5Table.read_eq_some_iff.mpr ⟨hmem, rfl⟩, havail, rfl⟩
    · exact I.goto_locked hc hl hn (fun _ => I.locked hc hl) rfl rfl
    · exact I.goto_locked hc hl hn (fun h => h.elim) rfl rfl
  | cleanup =>
    obtain ⟨e, hc, rfl⟩ := SockStep.cleanup_inv h
    have J : Slotted (s.goto c e .reselecting) :=
      I.goto_locked hc trivial not_false (fun _ => I.locked hc trivial) rfl rfl
    exact J.updateWhere (fun _ => rfl) fun _ _ => rfl
  | mark nowMs =>
    obtain ⟨e, config, hc, rfl⟩ := SockStep.mark_inv h
    exact I.mark hc
  | dbError error =>
    obtain ⟨e, pc, hc, hn, ⟨-, rfl⟩ | ⟨hl, rfl⟩⟩ := SockStep.dbError_inv h
    · exact I.goto_idle (fun _ h => by cases hc.symm.trans h; exact hn) not_false rfl rfl
    · exact I.goto_locked hc hl hn (fun h => h.elim) rfl rfl

theorem step {a : SockAct} (I : Slotted s) (h : s.step N a = some t) : Slotted t := by
  cases a with
  | tick now =>
    obtain ⟨-, rfl⟩ := SockStep.tick_inv h
    exact { I with }
  | call c a => exact I.callStep h
  | extend username expected new =>
    obtain rfl | ⟨r, -, -, -, rfl⟩ := SockStep.extend_inv h
    · exact I
    · exact I.prolong.updateWhere (fun _ => rfl) fun _ h => h
  | cleanup =>
    cases h
    exact I.updateWhere (fun _ => rfl) fun _ _ => rfl
  | reload =>
    cases h
    exact { I with }

theorem of_reach {C : SockSys → SockAct → Prop} {t₀ : Socks5Table} {clock : Int}
    (hr : Reach (SockSys.step N) C (.start t₀ clock) s) : Slotted s :=
  hr.inv (start t₀ clock) fun _ _ _ I _ h => I.step h

end Slotted

/-- The row of a slot that was granted: taken until the expiry `e`, or released after it. -/
def Occupies (clock e : Int) (r : Socks5Config) : Prop :=
  (r.available = false ∧ r.expiresAt = e) ∨ (r.available = true ∧ r.expiresAt = 0 ∧ 0 < clock ∧ e ≤ clock)

/-- The UPDATE of a priority request writes no slot that was ever leased exclusively. -/
def Apart (s : SockSys) (a : SockAct) : Prop :=
  ∀ c nowMs e config, a = .call c (.handOut nowMs) → s.calls c = some ⟨e, .updating config⟩ →
    s.holder config.username = none

/-- What such runs keep: an exclusive lease has its row, or is over. -/
structure Occupied (s : SockSys) : Prop where
  lease : ∀ {c l}, s.leases c = some l → s.holder l.config.username = some c ∨ l.expiresAt ≤ s.clock
  held : ∀ {u c}, s.holder u = some c → ∃ l r, s.leases c = some l ∧ l.config.username = u ∧
    readSocks5ConfigByUsername s.table u = some r ∧ Occupies s.clock l.expiresAt r

namespace Occupied
variable {N : Int} {s t : SockSys} {c : ℕ} {e : Int}

theorem start (t₀ : Socks5Table) (clock : Int) : Occupied (.start t₀ clock) where
  lease h := by cases h
  held h := by cases h

theorem of_eq (O : Occupied s) (htable : t.table = s.table) (hholder : t.holder = s.holder) (hleases : t.leases = s.leases)
    (hclock : s.clock ≤ t.clock) : Occupied t where
  lease hl := by
    rw [hholder]
    exact (O.lease (hleases ▸ hl)).imp_right (·.trans hclock)
  held hh := by
    rw [hleases, htable]
    obtain ⟨l, r, hl, hu, hr, hocc⟩ := O.held (hholder ▸ hh)
    refine ⟨l, r, hl, hu, hr, hocc.imp_right ?_⟩
    rintro ⟨havail, hzero, hpos, hover⟩
    exact ⟨havail, hzero, hpos.trans_le hclock, hover.trans hclock⟩

theorem updateWhere {p : Socks5Config → Bool} {set : Socks5Update} (O : Occupied s)
    (hheld : ∀ u c l r, s.holder u = some c → s.leases c = some l → readSocks5ConfigByUsername s.table u = some r →
      p r = true → Occupies s.clock l.expiresAt r → Occupies s.clock l.expiresAt (set.set r)) :
    Occupied { s with table := s.table.updateWhere p set } where
  lease := O.lease
  held {u c} hc := by
    obtain ⟨l, r, hl, hu, hr, hocc⟩ := O.held hc
    refine ⟨l, _, hl, hu, Socks5Table.read_updateWhere_of hr, ?_⟩
    split
    · next hp => exact hheld u c l r hc hl hr hp hocc
    · exact hocc

theorem cleanup (O : Occupied s) : Occupied { s with table := (cleanupExpiredSocks5Configs s.table s.clock).2 } := by
  refine O.updateWhere fun u c l r _ _ _ hp hocc => ?_
  obtain ⟨hpos, hle⟩ := of_decide_eq_true hp
  refine Or.inr ⟨rfl, rfl, hpos.trans_le hle, ?_⟩
  rcases hocc with ⟨-, hexp⟩ | ⟨-, -, -, hover⟩
  · exact hexp ▸ hle
  · exact hover

theorem handOut {config : Socks5Config} {nowMs : Int} (O : Occupied s) (hfree : s.holder config.username = none) :
    Occupied { s with table := updatePriority s.table config e nowMs } := by
  refine O.updateWhere fun u c l r hc _ hr hp _ => ?_
  have hname : r.username = config.username := of_decide_eq_true hp
  rw [(Socks5Table.read_eq_some_iff.mp hr).2] at hname
  rw [hname, hfree] at hc
  cases hc

/-- The UPDATE of an exclusive lease takes a slot whose last lease is over. -/
theorem mark {config : Socks5Config} {nowMs : Int} (O : Occupied s) (I : Slotted s)
    (hc : s.calls c = some ⟨e, .marking config⟩) :
    Occupied { (s.goto c e (.leased config)).grant c config e with
      table := markUnavailable s.table config e nowMs, lock := none } := by
  obtain ⟨r, hr, havail, hmarked⟩ := I.read_markUnavailable hc nowMs
  have hnone : s.leases c = none := I.ungranted fun call h => by
    cases hc.symm.trans h
    exact not_false
  have hrest : ∀ u, u ≠ config.username → readSocks5ConfigByUsername (markUnavailable s.table config e nowMs) u =
      readSocks5ConfigByUsername s.table u := by
    intro u hu
    rw [markUnavailable, Socks5Table.read_updateWhere]
    cases hread : readSocks5ConfigByUsername s.table u with
    | none => rfl
    | some r' =>
      have hname : r'.username ≠ config.username := fun h => hu ((Socks5Table.read_eq_some_iff.mp hread).2.symm.trans h)
      simp [hname]
  constructor
  · intro c' l h
    rcases Function.update_some_cases h with ⟨hne, heq⟩ | ⟨hne, hl⟩
    · subst hne
      cases heq
      exact Or.inl (Function.update_self ..)
    · by_cases hu : l.config.username = config.username
      · right
        rcases O.lease hl with hholder | hover
        · obtain ⟨l', r', hl', -, hr', hocc⟩ := O.held hholder
          cases hl'.symm.trans hl
          cases (hu ▸ hr').symm.trans hr
          rcases hocc with ⟨htaken, -⟩ | ⟨-, -, -, hover⟩
          · cases htaken.symm.trans havail
          · exact hover
        · exact hover
      · exact (O.lease hl).imp_left ((Function.update_of_ne hu _ s.holder).trans ·)
  · intro u c' h
    rcases Function.update_some_cases h with ⟨hu, heq⟩ | ⟨hu, h⟩
    · subst hu
      cases heq
      exact ⟨_, _, Function.update_self .., rfl, hmarked, Or.inl ⟨rfl, rfl⟩⟩
    · obtain ⟨l, r', hl, hu', hr', hocc⟩ := O.held h
      have hne : c' ≠ c := by
        rintro rfl
        cases hnone.symm.trans hl
      exact ⟨l, r', (Function.update_of_ne hne _ s.leases).trans hl, hu', (hrest u hu).trans hr', hocc⟩

theorem extend {username : String} {new : Int} {r : Socks5Config} (O : Occupied s)
    (hr : readSocks5ConfigByUsername s.table username = some r) (hlive : s.clock < r.expiresAt) :
    Occupied { s.prolong username new with
      table := s.table.updateWhere (socks5ExtensionMatches username r.expiresAt s.clock)
        (extendedTo new s.clock) } := by
  constructor
  · intro c l h
    obtain ⟨l₀, hl₀, rfl⟩ := Option.map_eq_some_iff.mp h
    split
    · next hh =>
      obtain ⟨l', -, hl', hu, -⟩ := O.held hh
      cases hl'.symm.trans hl₀
      exact Or.inl (hu ▸ hh)
    · exact O.lease hl₀
  · intro u c hh
    replace hh : s.holder u = some c := hh
    obtain ⟨l, r', hl, hu, hr', hocc⟩ := O.held hh
    refine ⟨_, _, congrArg (Option.map _) hl, ?_, Socks5Table.read_updateWhere_of hr', ?_⟩
    · split <;> exact hu
    · by_cases hname : u = username
      · subst hname
        cases hr'.symm.trans hr
        have hmatch : socks5ExtensionMatches u r.expiresAt s.clock r = true :=
          decide_eq_true ⟨(Socks5Table.read_eq_some_iff.mp hr).2, rfl, hlive⟩
        rw [if_pos hmatch]
        dsimp only
        rw [if_pos hh]
        rcases hocc with ⟨htaken, -⟩ | ⟨-, hzero, hpos, -⟩
        · exact Or.inl ⟨htaken, rfl⟩
        · -- a released row has expiry 0, which has passed
          rw [hzero] at hlive
          exact absurd hlive (lt_asymm hpos)
      · have hmatch : ¬socks5ExtensionMatches username r.expiresAt s.clock r' = true := fun h =>
          hname ((Socks5Table.read_eq_some_iff.mp hr').2.symm.trans (of_decide_eq_true h).1)
        have hne : s.holder username ≠ some c := by
          intro hh'
          obtain ⟨l', -, hl', hu', -⟩ := O.held hh'
          cases hl'.symm.trans hl
          exact hname (hu.symm.trans hu')
        rw [if_neg hmatch]
        dsimp only
        rw [if_neg hne]
        exact hocc

theorem callStep {a : SockCallAct} (I : Slotted s) (O : Occupied s) (hapart : Apart s (.call c a))
    (h : s.callStep N c a = some t) : Occupied t := by
  cases a with
  | start priority e => obtain ⟨-, rfl | rfl⟩ := SockStep.start_inv h <;> exact O.of_eq rfl rfl rfl le_rfl
  | pick choice =>
    obtain ⟨e, -, rfl | ⟨config, -, rfl⟩⟩ := SockStep.pick_inv h <;> exact O.of_eq rfl rfl rfl le_rfl
  | handOut nowMs =>
    obtain ⟨e, config, hc, rfl⟩ := SockStep.handOut_inv h
    exact (O.handOut (hapart c nowMs e config rfl hc)).of_eq rfl rfl rfl le_rfl
  | acquire =>
    obtain ⟨e, -, -, rfl⟩ := SockStep.acquire_inv h
    exact O.of_eq rfl rfl rfl le_rfl
  | lockTimeout =>
    obtain ⟨e, -, rfl⟩ := SockStep.lockTimeout_inv h
    exact O.of_eq rfl rfl rfl le_rfl
  | select =>
    obtain ⟨e, pc, -, -, -, ⟨config, -, rfl⟩ | rfl | rfl⟩ := SockStep.select_inv h <;> exact O.of_eq rfl rfl rfl le_rfl
  | cleanup =>
    obtain ⟨e, -, rfl⟩ := SockStep.cleanup_inv h
    exact O.cleanup.of_eq rfl rfl rfl le_rfl
  | mark nowMs =>
    obtain ⟨e, config, hc, rfl⟩ := SockStep.mark_inv h
    exact O.mark I hc
  | dbError error =>
    obtain ⟨e, pc, -, -, ⟨-, rfl⟩ | ⟨-, rfl⟩⟩ := SockStep.dbError_inv h <;> exact O.of_eq rfl rfl rfl le_rfl

theorem step {a : SockAct} (I : Slotted s) (O : Occupied s) (hapart : Apart s a) (h : s.step N a = some t) : Occupied t := by
  cases a with
  | tick now =>
    obtain ⟨hle, rfl⟩ := SockStep.tick_inv h
    exact O.of_eq rfl rfl rfl hle
  | call c a => exact O.callStep I hapart h
  | extend username expected new =>
    obtain rfl | ⟨r, hr, rfl, hlive, rfl⟩ := SockStep.extend_inv h
    · exact O
    · exact O.extend hr hlive
  | cleanup =>
    cases h
    exact O.cleanup
  | reload =>
    cases h
    exact O.of_eq rfl rfl rfl le_rfl

theorem of_reach {t₀ : Socks5Table} {clock : Int} (hr : Reach (SockSys.step N) Apart (.start t₀ clock) s) : Occupied s :=
  hr.inv_of_reached (start t₀ clock) fun _ _ _ hr O hapart h => O.step (.of_reach hr) hapart h

end Occupied

end TpnWorker
