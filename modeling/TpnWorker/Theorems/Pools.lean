import TpnWorker.Concurrent.Slots

/-! The two SOCKS5 pools stay apart, and an exclusive slot has one unexpired lease. No row is marked as a
    priority slot: what keeps the pools apart is that the rows with the lowest ids stay available. -/

namespace TpnWorker
open Keyed Transition

namespace Socks5Table

/-- The first `prioritySlots` rows are available. -/
def PrioritySlotsFree (t : Socks5Table) (prioritySlots : Int) : Prop :=
  ∀ r ∈ t.rows.take prioritySlots.toNat, r.available = true

section
variable {t : Socks5Table} {N : Int} {config : Socks5Config} {username : String}

/-- The usernames of the priority pool. -/
def priorityNames (t : Socks5Table) (N : Int) : List String := t.names.take N.toNat

/-- The usernames behind the priority pool. -/
def exclusiveNames (t : Socks5Table) (N : Int) : List String := t.names.drop N.toNat

theorem names_disjoint (h : username ∈ t.priorityNames N) (h' : username ∈ t.exclusiveNames N) : False :=
  List.disjoint_take_drop t.unique (Nat.le_refl _) h h'

theorem username_mem_priorityNames (hN : 0 ≤ N) (hfree : t.PrioritySlotsFree N) (h : config ∈ priorityConfigs t N) :
    config.username ∈ t.priorityNames N := by
  rw [priorityNames, names, ← List.map_take]
  exact List.mem_map_of_mem (mem_take_of_mem_page hN hfree h)

/-- The row that an exclusive SELECT finds is available and lies behind the priority pool. -/
theorem nonPriorityConfig_spec (hfree : t.PrioritySlotsFree N) (h : nonPriorityConfig t N = some config) :
    config.username ∈ t.exclusiveNames N ∧ readSocks5ConfigByUsername t config.username = some config ∧
      config.available = true := by
  obtain ⟨hmem, havail⟩ := mem_drop_of_mem_page hfree (List.mem_of_mem_head? h)
  refine ⟨?_, read_eq_some_iff.mpr ⟨List.mem_of_mem_drop hmem, rfl⟩, havail⟩
  rw [exclusiveNames, names, ← List.map_drop]
  exact List.mem_map_of_mem hmem

theorem PrioritySlotsFree.updateWhere {p : Socks5Config → Bool} {u : Socks5Update} (hfree : t.PrioritySlotsFree N)
    (hu : ∀ r, r.username ∈ t.priorityNames N → p r = true → r.available = true → (u.set r).available = true) :
    (t.updateWhere p u).PrioritySlotsFree N := by
  intro r hr
  obtain ⟨r₀, hr₀, rfl⟩ := mem_take_updateWhere hr
  have hname : r₀.username ∈ t.priorityNames N := by
    rw [priorityNames, names, ← List.map_take]
    exact List.mem_map_of_mem hr₀
  split
  · next hp => exact hu r₀ hname hp (hfree r₀ hr₀)
  · exact hfree r₀ hr₀

end

end Socks5Table

/-- What every run keeps. The table `t₀` is the one at its start. -/
structure Pooled (N : Int) (t₀ : Socks5Table) (s : SockSys) : Prop where
  names : s.table.names = t₀.names
  free : s.table.PrioritySlotsFree N
  locked : ∀ {c call}, s.calls c = some call → call.pc.Locked → s.lock = some c
  priority : ∀ {c call config}, s.calls c = some call → call.pc.priority? = some config →
    config.username ∈ t₀.priorityNames N
  marking : ∀ {c call config}, s.calls c = some call → call.pc.marking? = some config →
    config.username ∈ t₀.exclusiveNames N ∧
      ∃ r, readSocks5ConfigByUsername s.table config.username = some r ∧ r.available = true ∧
        r.password = config.password
  ungranted : ∀ {c}, (∀ call, s.calls c = some call → ¬call.pc.Leased) → s.leases c = none
  lease : ∀ {c l}, s.leases c = some l →
    l.config.username ∈ t₀.exclusiveNames N ∧ (s.holder l.config.username = some c ∨ l.expiresAt ≤ s.clock)
  held : ∀ {u c}, s.holder u = some c → ∃ l r, s.leases c = some l ∧ l.config.username = u ∧
    readSocks5ConfigByUsername s.table u = some r ∧ Occupies s.clock l.expiresAt r

/-- The pools that a run keeps apart: where the calls pick, and where the exclusive leases lie. -/
structure Split (N : Int) (t₀ : Socks5Table) (s : SockSys) : Prop where
  names : s.table.names = t₀.names
  free : s.table.PrioritySlotsFree N
  priority : ∀ {c call config}, s.calls c = some call → call.pc.priority? = some config →
    config.username ∈ t₀.priorityNames N
  marking : ∀ {c call config}, s.calls c = some call → call.pc.marking? = some config →
    config.username ∈ t₀.exclusiveNames N
  lease : ∀ {c l}, s.leases c = some l → l.config.username ∈ t₀.exclusiveNames N

namespace Split
variable {N : Int} {t₀ : Socks5Table} {s t : SockSys} {c : ℕ} {e : Int}

theorem start {clock : Int} (hfree : ∀ r ∈ t₀.rows, r.available = true) : Split N t₀ (.start t₀ clock) where
  names := rfl
  free r hr := hfree r (List.mem_of_mem_take hr)
  priority h := by cases h
  marking h := by cases h
  lease h := by cases h

theorem goto {pc : SockPc} {lock : Option ℕ} (P : Split N t₀ s)
    (hpriority : ∀ config, pc.priority? = some config → config.username ∈ t₀.priorityNames N)
    (hmarking : ∀ config, pc.marking? = some config → config.username ∈ t₀.exclusiveNames N) :
    Split N t₀ { s.goto c e pc with lock } where
  names := P.names
  free := P.free
  priority h hp := by
    obtain ⟨rfl, rfl⟩ | ⟨-, h⟩ := SockSys.calls_goto h
    · exact hpriority _ hp
    · exact P.priority h hp
  marking h hm := by
    obtain ⟨rfl, rfl⟩ | ⟨-, h⟩ := SockSys.calls_goto h
    · exact hmarking _ hm
    · exact P.marking h hm
  lease := P.lease

theorem goto_none {p : SockPc} {lock : Option ℕ} (P : Split N t₀ s) (hp : p.priority? = none) (hm : p.marking? = none) :
    Split N t₀ { s.goto c e p with lock } :=
  P.goto (fun _ h => by cases hp.symm.trans h) fun _ h => by cases hm.symm.trans h

theorem updateWhere {p : Socks5Config → Bool} {set : Socks5Update} (P : Split N t₀ s)
    (havail : ∀ r, r.username ∈ t₀.priorityNames N → p r = true → r.available = true → (set.set r).available = true) :
    Split N t₀ { s with table := s.table.updateWhere p set } where
  names := Socks5Table.names_updateWhere.trans P.names
  free := P.free.updateWhere fun r hmem => havail r (by rwa [Socks5Table.priorityNames, P.names] at hmem)
  priority := P.priority
  marking := P.marking
  lease := P.lease

theorem mark {config : Socks5Config} {nowMs : Int} (P : Split N t₀ s) (hc : s.calls c = some ⟨e, .marking config⟩) :
    Split N t₀ { (s.goto c e (.leased config)).grant c config e with
      table := markUnavailable s.table config e nowMs, lock := none } := by
  have hmem := P.marking hc rfl
  have J : Split N t₀ { s.goto c e (.leased config) with table := markUnavailable s.table config e nowMs } := by
    refine (P.goto_none (c := c) (e := e) (p := .leased config) rfl rfl).updateWhere fun r hpriority hp _ => ?_
    have hname : r.username = config.username := (of_decide_eq_true hp).1
    exact (Socks5Table.names_disjoint (hname ▸ hpriority) hmem).elim
  refine ⟨J.names, J.free, J.priority, J.marking, fun {c' l} h => ?_⟩
  rcases Function.update_some_cases h with ⟨hne, heq⟩ | ⟨hne, h⟩
  · subst hne
    cases heq
    exact hmem
  · exact P.lease h

theorem prolong {username : String} {new : Int} (P : Split N t₀ s) : Split N t₀ (s.prolong username new) where
  names := P.names
  free := P.free
  priority := P.priority
  marking := P.marking
  lease h := by
    obtain ⟨l₀, hl₀, rfl⟩ := Option.map_eq_some_iff.mp h
    have hmem := P.lease hl₀
    split <;> exact hmem

theorem callStep {a : SockCallAct} (hN : 0 ≤ N) (P : Split N t₀ s) (h : s.callStep N c a = some t) : Split N t₀ t := by
  cases a with
  | start priority e => obtain ⟨-, rfl | rfl⟩ := SockStep.start_inv h <;> exact P.goto_none rfl rfl
  | pick choice =>
    obtain ⟨e, -, rfl | ⟨config, hmem, rfl⟩⟩ := SockStep.pick_inv h
    · exact P.goto_none rfl rfl
    · refine P.goto (fun _ h => ?_) (fun _ h => by cases h)
      cases h
      have hname := Socks5Table.username_mem_priorityNames hN P.free hmem
      rwa [Socks5Table.priorityNames, P.names] at hname
  | handOut nowMs =>
    obtain ⟨e, config, hc, rfl⟩ := SockStep.handOut_inv h
    have J : Split N t₀ (s.goto c e (.handedOut config)) := by
      refine P.goto (fun _ h => ?_) (fun _ h => by cases h)
      cases h
      exact P.priority hc rfl
    exact J.updateWhere fun _ _ _ h => h
  | acquire =>
    obtain ⟨e, -, -, rfl⟩ := SockStep.acquire_inv h
    exact P.goto_none rfl rfl
  | lockTimeout =>
    obtain ⟨e, -, rfl⟩ := SockStep.lockTimeout_inv h
    exact P.goto_none rfl rfl
  | select =>
    obtain ⟨e, pc, -, -, -, ⟨config, hsel, rfl⟩ | rfl | rfl⟩ := SockStep.select_inv h
    · refine P.goto (fun _ h => by cases h) (fun _ h => ?_)
      cases h
      have hmem := (Socks5Table.nonPriorityConfig_spec P.free hsel).1
      rwa [Socks5Table.exclusiveNames, P.names] at hmem
    · exact P.goto_none rfl rfl
    · exact P.goto_none rfl rfl
  | cleanup =>
    obtain ⟨e, -, rfl⟩ := SockStep.cleanup_inv h
    have J : Split N t₀ (s.goto c e .reselecting) := P.goto_none rfl rfl
    exact J.updateWhere fun _ _ _ _ => rfl
  | mark nowMs =>
    obtain ⟨e, config, hc, rfl⟩ := SockStep.mark_inv h
    exact P.mark hc
  | dbError error =>
    obtain ⟨e, pc, -, -, ⟨-, rfl⟩ | ⟨-, rfl⟩⟩ := SockStep.dbError_inv h <;> exact P.goto_none rfl rfl

theorem step {a : SockAct} (hN : 0 ≤ N) (P : Split N t₀ s) (h : s.step N a = some t) : Split N t₀ t := by
  cases a with
  | tick now =>
    obtain ⟨-, rfl⟩ := SockStep.tick_inv h
    exact { P with }
  | call c a => exact P.callStep hN h
  | extend username expected new =>
    obtain rfl | ⟨r, -, -, -, rfl⟩ := SockStep.extend_inv h
    · exact P
    · exact P.prolong.updateWhere fun _ _ _ h => h
  | cleanup =>
    cases h
    exact P.updateWhere fun _ _ _ _ => rfl
  | reload =>
    cases h
    exact { P with }

/-- A slot that a priority request is about to write was never leased exclusively. -/
theorem apart (P : Split N t₀ s) (O : Occupied s) (a : SockAct) : Apart s a := by
  rintro c nowMs e config rfl hc
  by_contra hholder
  obtain ⟨c', hholder⟩ := Option.ne_none_iff_exists'.mp hholder
  obtain ⟨l, r, hl, hu, -, -⟩ := O.held hholder
  exact Socks5Table.names_disjoint (P.priority hc rfl) (hu ▸ P.lease hl)

end Split

/-- Over any table whose slots start free, the pools stay apart, so every run keeps what the runs of `Apart` keep. -/
theorem Pooled.of_reach {N clock : Int} {t₀ : Socks5Table} {s : SockSys} (hN : 0 ≤ N)
    (hfree : ∀ r ∈ t₀.rows, r.available = true)
    (hr : Reach (SockSys.step N) (fun _ _ => True) (.start t₀ clock) s) : Pooled N t₀ s := by
  have hboth : Split N t₀ s ∧ Occupied s := by
    refine hr.inv_of_reached (I := fun s => Split N t₀ s ∧ Occupied s) ⟨.start hfree, .start t₀ clock⟩
      fun s a t hr hI _ h => ?_
    obtain ⟨P, O⟩ := hI
    exact ⟨P.step hN h, O.step (.of_reach hr) (P.apart O a) h⟩
  obtain ⟨P, O⟩ := hboth
  have I : Slotted s := .of_reach hr
  exact
  { names := P.names
    free := P.free
    locked := I.locked
    priority := P.priority
    marking := fun hc hm => ⟨P.marking hc hm, I.marking hc hm⟩
    ungranted := I.ungranted
    lease := fun hl => ⟨P.lease hl, O.lease hl⟩
    held := O.held }

section Exclusive
variable {N clock : Int} {t₀ : Socks5Table} {s : SockSys}

/-- Two unexpired exclusive leases name different usernames, and a priority request never hands out a username
    that was ever leased exclusively. -/
theorem socks5_exclusive (hN : 0 ≤ N) (hfree : ∀ r ∈ t₀.rows, r.available = true)
    (hr : Reach (SockSys.step N) (fun _ _ => True) (.start t₀ clock) s) :
    (∀ c c' l l', s.leases c = some l → s.leases c' = some l' → s.clock < l.expiresAt → s.clock < l'.expiresAt →
      l.config.username = l'.config.username → c = c') ∧
    ∀ c l p e config, s.leases c = some l → s.calls p = some ⟨e, .handedOut config⟩ →
      config.username ≠ l.config.username := by
  have I : Pooled N t₀ s := .of_reach hN hfree hr
  constructor
  · intro c c' l l' hl hl' hlive hlive' hname
    have hholder := (I.lease hl).2.resolve_right (not_le.mpr hlive)
    have hholder' := (I.lease hl').2.resolve_right (not_le.mpr hlive')
    rw [hname, hholder'] at hholder
    exact (Option.some.inj hholder).symm
  · intro c l p e config hl hp hname
    exact Socks5Table.names_disjoint (hname ▸ I.priority hp rfl) (I.lease hl).1

/-- A priority request and an exclusive one, interleaved. -/
theorem socks5_exclusive_sample :
    ∃ s : SockSys, (s.leases 2).isSome = true ∧
      (∀ c c' l l', s.leases c = some l → s.leases c' = some l' → s.clock < l.expiresAt → s.clock < l'.expiresAt →
        l.config.username = l'.config.username → c = c') ∧
      ∀ c l p e config, s.leases c = some l → s.calls p = some ⟨e, .handedOut config⟩ →
        config.username ≠ l.config.username := by
  have hrun : (exec (SockSys.step 1) (.start .sample 0) ([.call 1 (.start true 100), .call 1 (.pick 0)] ++
      SockAct.lease 2 200 ++ [.call 1 (.handOut 0)])).any fun s => (s.leases 2).isSome := by
    decide +kernel
  obtain ⟨s, hs, hlease⟩ := (Option.any_eq_true _ _).mp hrun
  exact ⟨s, hlease, socks5_exclusive (by decide) (by decide) (Reach.of_exec (fun _ _ => trivial) hs)⟩

end Exclusive

end TpnWorker
