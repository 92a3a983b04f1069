import Mathlib.Data.List.Nodup
import TpnWorker.Node
import TpnWorker.Service.LeaseManager

/-! Exclusive SOCKS5 allocations against the count of free slots. The free rows are a pool whose first slots are set aside;
    an allocation takes the next one behind them, and the count is what is left of the pool. -/

namespace TpnWorker
open Keyed

/-- The expiry has passed, and a cleanup at `now` releases the slot. -/
def Socks5Config.ExpiredAt (now : Int) (r : Socks5Config) : Prop := 0 < r.expiresAt ∧ r.expiresAt ≤ now

instance (now : Int) (r : Socks5Config) : Decidable (r.ExpiredAt now) := inferInstanceAs (Decidable (_ ∧ _))

namespace Socks5Table

/-- The available rows in order of their id. -/
def freeRows (t : Socks5Table) : List Socks5Config := t.rows.filter (·.available)

/-- The number of rows that are available or expired. -/
def usable (t : Socks5Table) (now : Int) : ℕ :=
  (t.rows.filter fun r => r.available || decide (r.ExpiredAt now)).length

/-- The table from which an allocation draws: the expired slots are released if none is free behind the first `n`. -/
def reclaimed (t : Socks5Table) (n : ℕ) (now : Int) : Socks5Table :=
  if n < t.freeRows.length then t else (cleanupExpiredSocks5Configs t now).2

/-- The row is leased until `expiresAt`, and all other rows are as before. -/
def LeasesOnly (t t' : Socks5Table) (config : Socks5Config) (expiresAt nowMs : Int) : Prop :=
  ∀ username, readSocks5ConfigByUsername t' username =
    if username = config.username then some { config with available := false, expiresAt := expiresAt, updated := nowMs }
    else readSocks5ConfigByUsername t username

section Free
variable {t : Socks5Table} {config : Socks5Config} {N expiresAt now nowMs : Int} {n : ℕ}

theorem nonPriorityConfig_eq : nonPriorityConfig t N = t.freeRows[N.toNat]? := by
  rw [nonPriorityConfig, selectAvailable, page, if_neg (by decide), freeRows, List.head?_take, if_neg (by decide),
    List.head?_drop]

theorem countAvailableSocks_eq : countAvailableSocks t N = t.freeRows.length - N.toNat := by
  rw [countAvailableSocks, selectAvailable, page, if_pos (by decide), List.length_drop]
  rfl

theorem mem_of_mem_freeRows (h : config ∈ t.freeRows) : config ∈ t.rows ∧ config.available = true := List.mem_filter.mp h

theorem freeRows_names_nodup (t : Socks5Table) : (t.freeRows.map (·.username)).Nodup :=
  t.unique.sublist (List.filter_sublist.map _)

/-- The UPDATE of an exclusive lease matches exactly the row that was selected. -/
theorem matches_iff {r : Socks5Config} (hconfig : config ∈ t.rows) (hr : r ∈ t.rows) :
    decide (r.username = config.username ∧ r.password = config.password) = true ↔ r = config := by
  rw [decide_eq_true_eq]
  exact ⟨fun h => List.inj_on_of_nodup_map t.unique hr hconfig h.1, fun h => h ▸ ⟨rfl, rfl⟩⟩

/-- A lease takes its row out of the pool. -/
theorem freeRows_markUnavailable (h : t.freeRows[n]? = some config) :
    (markUnavailable t config expiresAt nowMs).freeRows = t.freeRows.eraseIdx n := by
  obtain ⟨hn, hget⟩ := List.getElem?_eq_some_iff.mp h
  have hmem : config ∈ t.rows := (mem_of_mem_freeRows (List.mem_of_getElem? h)).1
  have hnodup : t.freeRows.Nodup := (freeRows_names_nodup t).of_map
  have hleft : (markUnavailable t config expiresAt nowMs).freeRows = t.rows.filter fun r =>
      r.available && !decide (r.username = config.username ∧ r.password = config.password) := by
    rw [freeRows, markUnavailable, filter_updateWhere]
    exact fun _ => rfl
  rw [hleft, ← hnodup.erase_getElem n hn, hget, hnodup.erase_eq_filter, freeRows, List.filter_filter]
  refine List.filter_congr fun r hr => ?_
  rw [Bool.and_comm]
  congr 1
  rw [Bool.eq_iff_iff, Bool.not_eq_true', ← Bool.not_eq_true, matches_iff hmem hr, bne_iff_ne]

theorem drop_freeRows_markUnavailable (h : t.freeRows[n]? = some config) :
    (markUnavailable t config expiresAt nowMs).freeRows.drop n = t.freeRows.drop (n + 1) := by
  have hn := (List.getElem?_eq_some_iff.mp h).1
  have htake : (t.freeRows.take n).length = n := List.length_take_of_le hn.le
  rw [freeRows_markUnavailable h, List.eraseIdx_eq_take_drop_succ, List.drop_left' htake]

theorem leasesOnly_markUnavailable (h : config ∈ t.rows) :
    LeasesOnly t (markUnavailable t config expiresAt nowMs) config expiresAt nowMs := by
  intro username
  rw [markUnavailable, read_updateWhere]
  split
  · next hname =>
    rw [hname, read_eq_some_iff.mpr ⟨h, rfl⟩, Option.map_some, if_pos (by simp)]
  · next hname =>
    cases hr : readSocks5ConfigByUsername t username with
    | none => rfl
    | some r =>
      have hne : r.username ≠ config.username := fun heq => hname ((read_eq_some_iff.mp hr).2.symm.trans heq)
      rw [Option.map_some, if_neg (by simp [hne])]

theorem length_freeRows_cleanup : (cleanupExpiredSocks5Configs t now).2.freeRows.length = t.usable now := by
  have hrows : (cleanupExpiredSocks5Configs t now).2.rows = t.rows.map fun r =>
      if decide (0 < r.expiresAt ∧ r.expiresAt ≤ now) then { r with available := true, expiresAt := 0 } else r := rfl
  rw [freeRows, hrows, List.filter_map, List.length_map, usable]
  congr 1
  refine List.filter_congr fun r _ => ?_
  rw [Function.comp_apply]
  by_cases hexp : 0 < r.expiresAt ∧ r.expiresAt ≤ now
  · rw [if_pos (decide_eq_true hexp), decide_eq_true (show r.ExpiredAt now from hexp), Bool.or_true]
  · rw [if_neg (by simpa using hexp), decide_eq_false (show ¬r.ExpiredAt now from hexp), Bool.or_false]

/-- A cleanup frees every row that is free already. -/
theorem length_freeRows_le : t.freeRows.length ≤ t.usable now := by
  rw [freeRows, usable, ← List.countP_eq_length_filter, ← List.countP_eq_length_filter]
  exact List.countP_mono_left fun r _ h => by rw [h, Bool.true_or]

/-- Whether a slot is left behind the first `n` of the pool depends on the usable rows only. -/
theorem lt_length_reclaimed : n < (t.reclaimed n now).freeRows.length ↔ n < t.usable now := by
  rw [reclaimed]
  split
  · next h => exact iff_of_true h (h.trans_le length_freeRows_le)
  · rw [length_freeRows_cleanup]

theorem reclaimed_eq_self (hnone : ∀ r ∈ t.rows, ¬r.ExpiredAt now) : t.reclaimed n now = t := by
  rw [reclaimed]
  split
  · rfl
  · have haff : t.table.affected (fun r => decide (0 < r.expiresAt ∧ r.expiresAt ≤ now)) = 0 :=
      Table.affected_eq_zero_iff.mpr fun r hr => decide_eq_false (hnone r hr)
    obtain ⟨table, unique⟩ := t
    simp only [cleanupExpiredSocks5Configs, updateWhere, Table.updateWhere_eq_self haff]

end Free

end Socks5Table

/-! ### One allocation -/

section Allocation
variable {W : Worker} {s s' : Stores} {req : LeaseRequest} {env : LeaseEnv} {result : LeaseResult}

def noSocks5Slots : AppError := .leaseUnavailable "No available SOCKS5 slots after cleanup"

/-- An exclusive allocation takes the first row of the pool behind the priority slots. -/
theorem allocateSocks5_eq (hpriority : req.priority = false) :
    allocateSocks5 W s req env =
      let socks := s.socks.reclaimed W.config.prioritySlots.toNat env.cleanupMs
      let expiresAt := newExpiresAt env.nowMs req.leaseSeconds
      match socks.freeRows[W.config.prioritySlots.toNat]? with
      | none => (.error noSocks5Slots, { s with socks })
      | some config => (.ok (socks5Result config req.format config.username expiresAt),
          { s with socks := markUnavailable socks config expiresAt env.socks.nowMs }) := by
  simp only [allocateSocks5, hpriority, Bool.not_false, Bool.true_and, decide_eq_true_eq, getSocks5Config,
    Bool.false_eq_true, if_false, Socks5Table.countAvailableSocks_eq, Socks5Table.reclaimed]
  by_cases hfree : W.config.prioritySlots.toNat < s.socks.freeRows.length
  · have hcount : ¬s.socks.freeRows.length - W.config.prioritySlots.toNat = 0 := by omega
    simp only [if_pos hfree, if_neg hcount, getSocks5ConfigNonPriority, Socks5Table.nonPriorityConfig_eq,
      List.getElem?_eq_getElem hfree]
  · have hcount : s.socks.freeRows.length - W.config.prioritySlots.toNat = 0 := by omega
    simp only [if_neg hfree, if_pos hcount]
    generalize (cleanupExpiredSocks5Configs s.socks env.cleanupMs).2 = socks
    by_cases hslot : W.config.prioritySlots.toNat < socks.freeRows.length
    · have hcount : ¬socks.freeRows.length - W.config.prioritySlots.toNat = 0 := by omega
      simp only [if_neg hcount, getSocks5ConfigNonPriority, Socks5Table.nonPriorityConfig_eq,
        List.getElem?_eq_getElem hslot]
    · have hcount : socks.freeRows.length - W.config.prioritySlots.toNat = 0 := by omega
      simp only [if_pos hcount, List.getElem?_eq_none (not_lt.mp hslot), noSocks5Slots]

/-- The row that an exclusive allocation hands out, and the lease that it leaves in the table. -/
structure HandsOut (W : Worker) (s : Stores) (req : LeaseRequest) (env : LeaseEnv) (result : LeaseResult) (s' : Stores)
    (config : Socks5Config) : Prop where
  rank : (s.socks.reclaimed W.config.prioritySlots.toNat env.cleanupMs).freeRows[W.config.prioritySlots.toNat]? = some config
  answer : result = socks5Result config req.format config.username (newExpiresAt env.nowMs req.leaseSeconds)
  leases : (s.socks.reclaimed W.config.prioritySlots.toNat env.cleanupMs).LeasesOnly s'.socks config
    (newExpiresAt env.nowMs req.leaseSeconds) env.socks.nowMs

theorem allocateSocks5_isOk_iff (hN : 0 ≤ W.config.prioritySlots) (hpriority : req.priority = false) :
    (∃ result, (allocateSocks5 W s req env).1 = .ok result) ↔ W.config.prioritySlots < s.socks.usable env.cleanupMs := by
  have hlt : W.config.prioritySlots < s.socks.usable env.cleanupMs ↔
      W.config.prioritySlots.toNat < s.socks.usable env.cleanupMs := by omega
  rw [allocateSocks5_eq hpriority, hlt, ← Socks5Table.lt_length_reclaimed]
  dsimp only
  split
  · next hnone => exact iff_of_false (fun ⟨_, h⟩ => by cases h) fun h => by simp [List.getElem?_eq_getElem h] at hnone
  · next hsome => exact iff_of_true ⟨_, rfl⟩ (List.getElem?_eq_some_iff.mp hsome).1

theorem allocateSocks5_handsOut (hpriority : req.priority = false)
    (h : allocateSocks5 W s req env = (.ok result, s')) : ∃ config, HandsOut W s req env result s' config := by
  rw [allocateSocks5_eq hpriority] at h
  dsimp only at h
  split at h
  · cases h
  · next config hrank =>
    cases h
    exact ⟨config, hrank, rfl, Socks5Table.leasesOnly_markUnavailable
      (Socks5Table.mem_of_mem_freeRows (List.mem_of_getElem? hrank)).1⟩

end Allocation

/-! ### Consecutive allocations -/

/-- A request with what it meets. -/
abbrev Socks5Call := LeaseRequest × LeaseEnv

/-- The allocations run one after the other. -/
def serve (W : Worker) : Stores → List Socks5Call → List (Except AppError LeaseResult)
  | _, [] => []
  | s, (req, env) :: calls =>
    let (result, s) := allocateSocks5 W s req env
    result :: serve W s calls

/-- The reference of a lease that was granted. -/
def grantedRef (result : Except AppError LeaseResult) : Option String := result.toOption.map (·.leaseRef)

/-- No call meets an expired row of the table, or a lease of an earlier call that has expired. -/
structure NoneExpires (t : Socks5Table) (calls : List Socks5Call) : Prop where
  rows : ∀ call ∈ calls, ∀ r ∈ t.rows, ¬r.ExpiredAt call.2.cleanupMs
  leases : calls.Pairwise fun call later => later.2.cleanupMs < newExpiresAt call.2.nowMs call.1.leaseSeconds

/-- The calls are served in turn from the slots: the first get one each, and the others are refused. -/
def ServedInTurn (slots : List Socks5Config) (results : List (Except AppError LeaseResult)) : Prop :=
  let granted := slots.take results.length
  results.map grantedRef = granted.map (fun config => some config.username) ++
    List.replicate (results.length - granted.length) none

section Calls
variable {W : Worker} {s : Stores} {req : LeaseRequest} {env : LeaseEnv} {calls : List Socks5Call} {t : Socks5Table}
  {slots : List Socks5Config} {config : Socks5Config} {results : List (Except AppError LeaseResult)}
  {result : Except AppError LeaseResult}

@[simp] theorem length_serve : (serve W s calls).length = calls.length := by
  induction calls generalizing s with
  | nil => rfl
  | cons call calls ih => exact congrArg Nat.succ ih

theorem ServedInTurn.nil : ServedInTurn slots [] := by simp [ServedInTurn]

theorem ServedInTurn.granted (href : grantedRef result = some config.username) (h : ServedInTurn slots results) :
    ServedInTurn (config :: slots) (result :: results) := by
  simp only [ServedInTurn, List.length_cons, List.map_cons, List.take_succ_cons, href, List.cons_append,
    Nat.add_sub_add_right] at h ⊢
  rw [h]

theorem ServedInTurn.refused (href : grantedRef result = none) (h : ServedInTurn [] results) :
    ServedInTurn [] (result :: results) := by
  simp only [ServedInTurn, List.take_nil, List.map_nil, List.nil_append, List.length_nil, Nat.sub_zero, List.map_cons,
    List.length_cons, List.replicate_succ, href] at h ⊢
  rw [h]

theorem NoneExpires.tail {call : Socks5Call} (h : NoneExpires t (call :: calls)) : NoneExpires t calls :=
  ⟨fun c hc => h.rows c (List.mem_cons_of_mem _ hc), (List.pairwise_cons.mp h.leases).2⟩

/-- The lease of a call joins the rows that do not expire. -/
theorem NoneExpires.lease (h : NoneExpires t ((req, env) :: calls)) :
    NoneExpires (markUnavailable t config (newExpiresAt env.nowMs req.leaseSeconds) env.socks.nowMs) calls where
  rows call hcall r hr hexp := by
    obtain ⟨r₀, hr₀, rfl⟩ := List.mem_map.mp hr
    split at hexp
    · exact absurd hexp.2 (not_le.mpr ((List.pairwise_cons.mp h.leases).1 call hcall))
    · exact h.rows call (List.mem_cons_of_mem _ hcall) r₀ hr₀ hexp
  leases := h.tail.leases

/-- Exclusive allocations without expiries are served from the pool behind the priority slots. -/
theorem served_in_turn (hpriority : ∀ call ∈ calls, call.1.priority = false) (hnone : NoneExpires s.socks calls) :
    ServedInTurn (s.socks.freeRows.drop W.config.prioritySlots.toNat) (serve W s calls) := by
  induction calls generalizing s with
  | nil => exact .nil
  | cons call calls ih =>
    obtain ⟨req, env⟩ := call
    have hrest : ∀ call ∈ calls, call.1.priority = false := fun c hc => hpriority c (List.mem_cons_of_mem _ hc)
    have hself := Socks5Table.reclaimed_eq_self (n := W.config.prioritySlots.toNat)
      (hnone.rows (req, env) List.mem_cons_self)
    simp only [serve, allocateSocks5_eq (hpriority _ List.mem_cons_self), hself]
    cases hslot : s.socks.freeRows[W.config.prioritySlots.toNat]? with
    | some config =>
      obtain ⟨hn, hget⟩ := List.getElem?_eq_some_iff.mp hslot
      rw [List.drop_eq_getElem_cons hn, hget]
      refine ServedInTurn.granted rfl ?_
      let socks := markUnavailable s.socks config (newExpiresAt env.nowMs req.leaseSeconds) env.socks.nowMs
      have hlater : NoneExpires socks calls := hnone.lease
      have hrow : socks.freeRows.drop W.config.prioritySlots.toNat =
          s.socks.freeRows.drop (W.config.prioritySlots.toNat + 1) := Socks5Table.drop_freeRows_markUnavailable hslot
      rw [← hrow]
      exact ih (s := { s with socks }) hrest hlater
    | none =>
      have hempty : s.socks.freeRows.drop W.config.prioritySlots.toNat = [] :=
        List.drop_eq_nil_of_le (List.getElem?_eq_none_iff.mp hslot)
      have hnext := ih (s := s) hrest hnone.tail
      rw [hempty] at hnext ⊢
      exact ServedInTurn.refused rfl hnext

/-- An exclusive allocation succeeds exactly if more rows are available or expired than there are priority slots, and it
    leases the next row of the pool and no other. Without expiries, the count is the number of consecutive allocations
    that succeed, and they lease different rows. -/
theorem allocations_agree_with_count (W : Worker) (s : Stores) (hN : 0 ≤ W.config.prioritySlots) :
    (∀ req env, req.priority = false →
      ((∃ result, (allocateSocks5 W s req env).1 = .ok result) ↔
          W.config.prioritySlots < s.socks.usable env.cleanupMs) ∧
        ∀ result s', allocateSocks5 W s req env = (.ok result, s') → ∃ config, HandsOut W s req env result s' config) ∧
      ∀ calls, (∀ call ∈ calls, call.1.priority = false) → NoneExpires s.socks calls →
        ∃ granted : List Socks5Config,
          (serve W s calls).map grantedRef = granted.map (fun config => some config.username) ++
              List.replicate (calls.length - granted.length) none ∧
            granted.length = min calls.length (countAvailableSocks s.socks W.config.prioritySlots) ∧
            (granted.map (·.username)).Nodup := by
  refine ⟨fun req env hpriority => ⟨allocateSocks5_isOk_iff hN hpriority, fun result s' h =>
    allocateSocks5_handsOut hpriority h⟩, fun calls hpriority hnone => ?_⟩
  have hserved := served_in_turn (W := W) hpriority hnone
  rw [ServedInTurn, length_serve] at hserved
  refine ⟨_, hserved, ?_, ?_⟩
  · rw [List.length_take, List.length_drop, Socks5Table.countAvailableSocks_eq]
  · exact (Socks5Table.freeRows_names_nodup s.socks).sublist
      (((List.take_sublist _ _).trans (List.drop_sublist _ _)).map _)

end Calls

/-- A worker with one priority slot. -/
def Worker.onePriority : Worker := ⟨.known, { (Deployment.sample 1).config with prioritySlots := 1 }, none⟩

/-- An exclusive request for a minute, at this time. -/
def Socks5Call.sample (nowMs : Int) : Socks5Call := (⟨"socks5", 60, false, "json", none, none⟩, .sample nowMs 1)

/-- Of two free slots the second is leased, once: a second call gets none. -/
theorem allocations_agree_with_count_sample :
    (∃ result, (allocateSocks5 .onePriority ⟨.fresh, .sample⟩ (Socks5Call.sample 0).1 (Socks5Call.sample 0).2).1 = .ok result) ∧
      ∃ granted : List Socks5Config,
        (serve .onePriority ⟨.fresh, .sample⟩ [.sample 0, .sample 1000]).map grantedRef =
            granted.map (fun config => some config.username) ++ List.replicate (2 - granted.length) none ∧
          granted.length = 1 := by
  obtain ⟨hone, hcalls⟩ := allocations_agree_with_count .onePriority ⟨.fresh, .sample⟩ (by decide)
  have hnone : NoneExpires Socks5Table.sample [.sample 0, .sample 1000] := ⟨by decide, by decide⟩
  obtain ⟨granted, hserved, hlength, -⟩ := hcalls [.sample 0, .sample 1000] (by decide) hnone
  have hcount : countAvailableSocks Socks5Table.sample Worker.onePriority.config.prioritySlots = 1 := by decide
  rw [hcount] at hlength
  exact ⟨(hone _ _ rfl).1.mpr (by decide), granted, hserved, hlength⟩

end TpnWorker
