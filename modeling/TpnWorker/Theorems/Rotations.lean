import TpnWorker.Concurrent.Rotation

/-! Map and table after a rotation. The map has the new password as soon as the call has changed it, and keeps it unless the
    reload clears the map later; so it depends on the order of the steps whether it is the password of the table. -/

namespace TpnWorker
open Keyed Transition

/-- The UPDATE does not fail, unless the reload clears the map after it was changed; and it does not come between the
    reading and the writing of a reload that clears the map after it was changed. -/
def KeepsStep (trace : List RotationAct) : Prop :=
  (∀ e, .update (.error e) ∈ trace → [.swap, .clear].Sublist trace) ∧
    ([.swap, .clear].Sublist trace → ¬[.read (.ok ()), .update (.ok ())].Sublist trace)

/-- The map is what the table loads, and the old password is still accepted if the call has returned an error. -/
structure InStep (r : Rotation) (table₀ : Socks5Table) (s : RotationSys) : Prop where
  agree : s.credentials = loadFromDb s.table
  failed : ∀ {e old}, s.rotation = .finished (.error e) → loadFromDb table₀ r.username = some old →
    authenticate s.credentials r.username old = true

/-! ### The trace -/

namespace RotationSys

def Clearing (s : RotationSys) : Prop := ∃ configs, s.reload = some (.clearing configs)

/-- The call has changed the map. -/
def Swapped (s : RotationSys) : Prop := s.rotation = .updating ∨ ∃ outcome, .update outcome ∈ s.trace

/-- The reload clears the map after it was changed, or is about to. -/
def Overwritten (s : RotationSys) : Prop := s.Clearing ∨ [.swap, .clear].Sublist s.trace

/-- A reload that has read the rows has read them as they were. -/
def ReadOld (s : RotationSys) : Prop :=
  .update (.ok ()) ∉ s.trace ∨ [.read (.ok ()), .update (.ok ())].Sublist s.trace

/-- The reload brings the old password back. -/
def Stale (s : RotationSys) : Prop := s.Overwritten ∧ s.ReadOld

end RotationSys

/-- What the trace says about the place of the reload. -/
structure ReloadRecorded (s : RotationSys) : Prop where
  uncalled : s.reload = none → .read (.ok ()) ∉ s.trace ∧ .clear ∉ s.trace
  loaded : s.Clearing ∨ .clear ∈ s.trace → .read (.ok ()) ∈ s.trace

/-- What the trace says about the place of the rotation and about the table. -/
structure CallRecorded (r : Rotation) (table₀ : Socks5Table) (s : RotationSys) : Prop where
  unswapped : s.rotation = .swapping → .swap ∉ s.trace
  unfinished : s.rotation = .swapping ∨ s.rotation = .updating → ∀ outcome, .update outcome ∉ s.trace
  swapped : s.Swapped → .swap ∈ s.trace
  finished : ∀ {result}, s.rotation = .finished result →
    (result = .error (unknownUser r.username) ∧ ∀ outcome, .update outcome ∉ s.trace) ∨
      (result = .ok r.newPassword ∧ .update (.ok ()) ∈ s.trace ∧ ∀ e, .update (.error e) ∉ s.trace) ∨
      ∃ e, result = .error (.db e) ∧ .update (.error e) ∈ s.trace ∧ .update (.ok ()) ∉ s.trace
  table_old : .update (.ok ()) ∉ s.trace → s.table = table₀
  table_new : .update (.ok ()) ∈ s.trace → s.table = r.set table₀

section Recorded
variable {r : Rotation} {table₀ : Socks5Table} {s t : RotationSys} {a : RotationAct}

theorem ReloadRecorded.start (table₀ : Socks5Table) : ReloadRecorded (.start table₀) := by
  constructor <;> simp [RotationSys.start, RotationSys.Clearing]

theorem ReloadRecorded.step (R : ReloadRecorded s) (h : s.step r a = some t) : ReloadRecorded t := by
  have hother : t.reload = s.reload → t.trace = s.trace ++ [a] → a ≠ .clear → a ≠ .read (.ok ()) → ReloadRecorded t := by
    intro hreload htrace hclear hread
    have hmem : ∀ {b}, a ≠ b → (b ∈ t.trace ↔ b ∈ s.trace) := fun hne => by
      rw [htrace, List.mem_append, List.mem_singleton, or_iff_left hne.symm]
    constructor
    · rw [hreload, hmem hclear, hmem hread]
      exact R.uncalled
    · rw [RotationSys.Clearing, hreload, hmem hclear, hmem hread]
      exact R.loaded
  cases a with
  | swap =>
    obtain ⟨-, ⟨_, -, rfl⟩ | ⟨-, rfl⟩⟩ := RotationStep.swap_inv h <;> exact hother rfl rfl (by simp) (by simp)
  | update outcome =>
    obtain ⟨-, ⟨rfl, rfl⟩ | ⟨_, rfl, rfl⟩⟩ := RotationStep.update_inv h <;> exact hother rfl rfl (by simp) (by simp)
  | read rows =>
    obtain ⟨hcall, ⟨rfl, rfl⟩ | ⟨e, rfl, rfl⟩⟩ := RotationStep.read_inv h <;>
      constructor <;> simp [RotationSys.Clearing, (R.uncalled hcall).2]
  | clear =>
    obtain ⟨configs, hreload, rfl⟩ := RotationStep.clear_inv h
    have hread := R.loaded (Or.inl ⟨configs, hreload⟩)
    constructor <;> simp [hread]
  | insert =>
    obtain ⟨config, rest, hreload, rfl⟩ := RotationStep.insert_inv h
    constructor
    · simp
    · rintro (⟨configs, hclearing⟩ | hclear)
      · cases rest <;> cases hclearing
      · exact List.mem_append_left _ (R.loaded (Or.inr (by simpa using hclear)))

theorem CallRecorded.start (r : Rotation) (table₀ : Socks5Table) : CallRecorded r table₀ (.start table₀) := by
  constructor <;> simp [RotationSys.start, RotationSys.Swapped]

theorem CallRecorded.step (R : CallRecorded r table₀ s) (h : s.step r a = some t) : CallRecorded r table₀ t := by
  have hother : t.rotation = s.rotation → t.table = s.table → t.trace = s.trace ++ [a] → a ≠ .swap →
      (∀ outcome, a ≠ .update outcome) → CallRecorded r table₀ t := by
    intro hrotation htable htrace hswap hupdate
    have hmem : ∀ {b}, a ≠ b → (b ∈ t.trace ↔ b ∈ s.trace) := fun hne => by
      rw [htrace, List.mem_append, List.mem_singleton, or_iff_left hne.symm]
    constructor <;> simp only [RotationSys.Swapped, hrotation, htable, hmem hswap, hmem (hupdate _)]
    · exact R.unswapped
    · exact R.unfinished
    · exact R.swapped
    · exact R.finished
    · exact R.table_old
    · exact R.table_new
  cases a with
  | swap =>
    obtain ⟨hpc, ⟨_, -, rfl⟩ | ⟨-, rfl⟩⟩ := RotationStep.swap_inv h
    all_goals
      have hupdate := R.unfinished (Or.inl hpc)
      have htable := R.table_old (hupdate _)
      constructor <;> simp [hupdate, htable]
  | update outcome =>
    obtain ⟨hpc, ⟨rfl, rfl⟩ | ⟨e, rfl, rfl⟩⟩ := RotationStep.update_inv h
    all_goals
      have hupdate := R.unfinished (Or.inr hpc)
      have hswap := R.swapped (Or.inl hpc)
      have htable := R.table_old (hupdate _)
      constructor <;> simp [hupdate, hswap, htable]
  | read rows =>
    obtain ⟨-, ⟨rfl, rfl⟩ | ⟨_, rfl, rfl⟩⟩ := RotationStep.read_inv h <;> exact hother rfl rfl rfl (by simp) (by simp)
  | clear =>
    obtain ⟨_, -, rfl⟩ := RotationStep.clear_inv h
    exact hother rfl rfl rfl (by simp) (by simp)
  | insert =>
    obtain ⟨_, _, -, rfl⟩ := RotationStep.insert_inv h
    exact hother rfl rfl rfl (by simp) (by simp)

end Recorded

/-! ### The map -/

namespace RotationSys
variable {s t : RotationSys} {configs : List Socks5Config}

theorem base_of_clearing (h : s.Clearing) : s.base = fun _ => none := by
  obtain ⟨configs, h⟩ := h
  rw [base, h]

theorem base_of_not_clearing (h : ¬s.Clearing) : s.base = s.credentials := by
  unfold base
  split
  · next configs hreload => exact absurd ⟨configs, hreload⟩ h
  · rfl

theorem not_clearing_of_remaining (h : s.reload = some (.remaining configs)) : ¬s.Clearing := by
  rintro ⟨configs', hclearing⟩
  cases configs <;> cases h.symm.trans hclearing

theorem rows_of_remaining (h : s.reload = some (.remaining configs)) : s.rows = configs := by
  rw [rows, h]
  cases configs <;> rfl

theorem outcome_apply (hnodup : (s.rows.map (·.username)).Nodup) (username : String) : s.outcome username =
    ((s.rows.find? fun row => decide (row.username = username)).map (·.password)).or (s.base username) :=
  foldl_insertCredential hnodup

theorem Swapped.of_trace {outcome : Except String Unit} (h : .update outcome ∈ s.trace) : s.Swapped := Or.inr ⟨outcome, h⟩

end RotationSys

/-- What the map will have once the reload has made its steps: for other users the password of the table, and for the user
    the old password or the new one. -/
structure Remembers (r : Rotation) (table₀ : Socks5Table) (s : RotationSys) : Prop where
  frame : ∀ {username}, username ≠ r.username → s.outcome username = loadFromDb table₀ username
  old : ¬s.Swapped ∨ s.Stale → s.outcome r.username = loadFromDb table₀ r.username
  new : s.Swapped → ¬s.Stale → s.outcome r.username = some r.newPassword
  known : s.Swapped → loadFromDb table₀ r.username ≠ none

/-- What holds of the map and of the rows that are still to be inserted. -/
structure Loading (r : Rotation) (table₀ : Socks5Table) (s : RotationSys) : Prop extends Remembers r table₀ s where
  nodup : (s.rows.map (·.username)).Nodup
  absent : ∀ config ∈ s.rows, config.username = r.username → s.base r.username = none
  stored : s.credentials r.username ≠ none → loadFromDb table₀ r.username ≠ none

/-- What every run keeps. -/
structure Rotating (r : Rotation) (table₀ : Socks5Table) (s : RotationSys) : Prop
    extends CallRecorded r table₀ s, ReloadRecorded s, Loading r table₀ s

section Remembers
variable {r : Rotation} {table₀ : Socks5Table} {s t : RotationSys}

theorem Remembers.congr (M : Remembers r table₀ s) (houtcome : t.outcome = s.outcome) (hswapped : t.Swapped ↔ s.Swapped)
    (hstale : s.Swapped → (t.Stale ↔ s.Stale)) : Remembers r table₀ t where
  frame h := houtcome ▸ M.frame h
  old h := by
    rw [houtcome]
    by_cases hs : s.Swapped
    · exact M.old (h.imp (fun hn => absurd (hswapped.mpr hs) hn) (hstale hs).mp)
    · exact M.old (Or.inl hs)
  new hs hn := by
    rw [houtcome]
    exact M.new (hswapped.mp hs) fun h => hn ((hstale (hswapped.mp hs)).mpr h)
  known hs := M.known (hswapped.mp hs)

theorem CallRecorded.not_swapped (R : CallRecorded r table₀ s) (h : s.rotation = .swapping) : ¬s.Swapped := by
  rintro (hupdating | ⟨outcome, hupdate⟩)
  · cases h.symm.trans hupdating
  · exact R.unfinished (Or.inl h) outcome hupdate

theorem CallRecorded.loadFromDb_of_ne (R : CallRecorded r table₀ s) {username : String} (hname : username ≠ r.username) :
    loadFromDb s.table username = loadFromDb table₀ username := by
  by_cases hmem : .update (.ok ()) ∈ s.trace
  · rw [R.table_new hmem, r.loadFromDb_set, if_neg hname]
  · rw [R.table_old hmem]

theorem CallRecorded.loadFromDb_self (R : CallRecorded r table₀ s) (hmem : .update (.ok ()) ∈ s.trace)
    (hknown : loadFromDb table₀ r.username ≠ none) : loadFromDb s.table r.username = some r.newPassword := by
  obtain ⟨old, hold⟩ := Option.ne_none_iff_exists'.mp hknown
  rw [R.table_new hmem, r.loadFromDb_set, if_pos rfl, hold, Option.map_some]

theorem ReloadRecorded.loaded_of_overwritten (R : ReloadRecorded s) (h : s.Overwritten) : .read (.ok ()) ∈ s.trace :=
  R.loaded (h.imp_right fun horder => horder.subset (by simp))

end Remembers

namespace Rotating
variable {r : Rotation} {table₀ : Socks5Table} {s t : RotationSys} {outcome rows : Except String Unit}

/-- The row of a user who is in the map has been inserted already, unless the map is still to be cleared. -/
theorem inserted (R : Rotating r table₀ s) (hclearing : ¬s.Clearing) {password : String}
    (hpassword : s.credentials r.username = some password) :
    s.rows.find? (fun row => decide (row.username = r.username)) = none := by
  refine List.find?_eq_none.mpr fun config hmem hname => ?_
  have hnone := R.absent config hmem (of_decide_eq_true hname)
  rw [RotationSys.base_of_not_clearing hclearing, hpassword] at hnone
  cases hnone

theorem swap (R : Rotating r table₀ s) (h : s.step r .swap = some t) : Loading r table₀ t := by
  obtain ⟨hpc, ⟨password, hpassword, rfl⟩ | ⟨-, rfl⟩⟩ := RotationStep.swap_inv h
  · have hstored : loadFromDb table₀ r.username ≠ none := R.stored (by simp [hpassword])
    have hupdate := R.unfinished (Or.inl hpc)
    generalize ht : ({ s with
      credentials := Function.update s.credentials r.username (some r.newPassword), rotation := .updating,
      trace := s.trace ++ [.swap] } : RotationSys) = t
    have hrows : t.rows = s.rows := by subst ht; rfl
    have hclearing : t.Clearing ↔ s.Clearing := by subst ht; rfl
    -- the reload has not cleared the map after this step
    have hover : t.Overwritten → s.Clearing := by
      rintro (hover | horder)
      · exact hclearing.mp hover
      · subst ht
        rcases pair_sublist_concat.mp horder with horder | ⟨-, heq⟩
        · exact absurd (horder.subset (by simp)) (R.unswapped hpc)
        · cases heq
    have hbase : s.Clearing → t.base = s.base := fun hs => by
      rw [RotationSys.base_of_clearing hs, RotationSys.base_of_clearing (hclearing.mpr hs)]
    have hbase' : ¬s.Clearing → t.base = Function.update s.base r.username (some r.newPassword) := fun hs => by
      rw [RotationSys.base_of_not_clearing hs, RotationSys.base_of_not_clearing (mt hclearing.mp hs), ← ht]
    have houtcome := RotationSys.outcome_apply (s := t) (hrows ▸ R.nodup)
    refine ⟨⟨fun {username} hname => ?_, fun h => ?_, fun _ hstale => ?_, fun _ => hstored⟩, hrows ▸ R.nodup,
      fun config hmem hname => ?_, fun _ => hstored⟩
    · rw [← R.frame hname, houtcome, RotationSys.outcome_apply R.nodup, hrows]
      by_cases hs : s.Clearing
      · rw [hbase hs]
      · rw [hbase' hs, Function.update_of_ne hname]
    · rcases h with hnot | ⟨ho, -⟩
      · exact absurd (Or.inl (by rw [← ht])) hnot
      · rw [← R.old (Or.inl (R.toCallRecorded.not_swapped hpc)), RotationSys.outcome, hrows, hbase (hover ho),
          RotationSys.outcome]
    · have hread : t.ReadOld := Or.inl (by subst ht; simpa using hupdate _)
      have hs : ¬s.Clearing := fun hs => hstale ⟨Or.inl (hclearing.mpr hs), hread⟩
      rw [houtcome, hrows, R.inserted hs hpassword, hbase' hs, Function.update_self]
      rfl
    · by_cases hs : s.Clearing
      · rw [hbase hs]
        exact R.absent config (hrows ▸ hmem) hname
      · have hnone := List.find?_eq_none.mp (R.inserted hs hpassword) config (hrows ▸ hmem)
        exact absurd (decide_eq_true hname) hnone
  · refine { R with toRemembers := R.toRemembers.congr rfl ?_ fun hs => ?_ }
    · simp [RotationSys.Swapped, hpc]
    · exact absurd hs (R.toCallRecorded.not_swapped hpc)

theorem update (R : Rotating r table₀ s) (h : s.step r (.update outcome) = some t) : Loading r table₀ t := by
  obtain ⟨hpc, hcases⟩ := RotationStep.update_inv h
  have hupdate := R.unfinished (Or.inr hpc)
  obtain ⟨rfl, rfl⟩ | ⟨e, rfl, rfl⟩ := hcases
  · refine { R with toRemembers := R.toRemembers.congr rfl ?_ fun _ => ?_ }
    · simp [RotationSys.Swapped, hpc]
    · -- rows that were read before are rows without the new password
      have hread : s.ReadOld := Or.inl (hupdate _)
      rw [RotationSys.Stale, RotationSys.Stale, and_iff_left hread]
      have hover : RotationSys.Overwritten { s with
          table := r.set s.table, rotation := .finished (.ok r.newPassword), trace := s.trace ++ [.update (.ok ())] } ↔
            s.Overwritten := by
        simp [RotationSys.Overwritten, RotationSys.Clearing, pair_sublist_concat]
      rw [hover]
      exact and_iff_left_of_imp fun ho => Or.inr (pair_sublist_concat.mpr
        (Or.inr ⟨R.toReloadRecorded.loaded_of_overwritten ho, rfl⟩))
  · refine { R with toRemembers := R.toRemembers.congr rfl ?_ fun _ => ?_ }
    · simp [RotationSys.Swapped, hpc]
    · simp [RotationSys.Stale, RotationSys.Overwritten, RotationSys.Clearing, RotationSys.ReadOld, pair_sublist_concat]

theorem read (R : Rotating r table₀ s) (h : s.step r (.read rows) = some t) : Loading r table₀ t := by
  obtain ⟨hnone, ⟨rfl, rfl⟩ | ⟨e, rfl, rfl⟩⟩ := RotationStep.read_inv h
  · generalize ht : ({ s with
      reload := some (.clearing s.table.rows), trace := s.trace ++ [.read (.ok ())] } : RotationSys) = t
    have hclearing : t.Clearing := ⟨s.table.rows, by rw [← ht]⟩
    have hload : t.outcome = loadFromDb s.table := by
      subst ht
      rfl
    have hswapped : t.Swapped ↔ s.Swapped := by
      subst ht
      simp [RotationSys.Swapped]
    have hread : t.ReadOld ↔ .update (.ok ()) ∉ s.trace := by
      subst ht
      have horder : ¬[.read (.ok ()), .update (.ok ())].Sublist s.trace := fun h =>
        (R.uncalled hnone).1 (h.subset (by simp))
      simp [RotationSys.ReadOld, pair_sublist_concat, horder]
    refine ⟨⟨fun {username} hname => ?_, fun h => ?_, fun hs hstale => ?_, fun hs => R.known (hswapped.mp hs)⟩,
      by subst ht; exact s.table.unique, fun _ _ _ => by rw [RotationSys.base_of_clearing hclearing],
      by subst ht; exact R.stored⟩
    · rw [hload, R.loadFromDb_of_ne hname]
    · have hmem : .update (.ok ()) ∉ s.trace := h.elim
        (fun hnot hmem => hnot (hswapped.mpr (.of_trace hmem))) fun hstale => hread.mp hstale.2
      rw [hload, R.table_old hmem]
    · have hmem : .update (.ok ()) ∈ s.trace := by
        by_contra hmem
        exact hstale ⟨Or.inl hclearing, hread.mpr hmem⟩
      rw [hload, R.loadFromDb_self hmem (R.known (hswapped.mp hs))]
  · have hrows : s.rows = [] := by rw [RotationSys.rows, hnone]
    have hbase : s.base = s.credentials := by rw [RotationSys.base, hnone]
    refine ⟨R.toRemembers.congr ?_ ?_ fun _ => ?_, List.nodup_nil, fun _ h => (by cases h), R.stored⟩
    · rw [RotationSys.outcome, RotationSys.outcome, hrows, hbase]
      rfl
    · simp [RotationSys.Swapped]
    · simp [RotationSys.Stale, RotationSys.Overwritten, RotationSys.Clearing, RotationSys.ReadOld, pair_sublist_concat, hnone]

theorem clear (R : Rotating r table₀ s) (h : s.step r .clear = some t) : Loading r table₀ t := by
  obtain ⟨configs, hclearing, rfl⟩ := RotationStep.clear_inv h
  have hrows : s.rows = configs := by rw [RotationSys.rows, hclearing]
  have hbase := RotationSys.base_of_clearing ⟨configs, hclearing⟩
  generalize ht : ({ s with
    credentials := fun _ => none, reload := some (.remaining configs), trace := s.trace ++ [.clear] } : RotationSys) = t
  have hremaining : t.reload = some (.remaining configs) := by rw [← ht]
  have hrows' : t.rows = s.rows := (RotationSys.rows_of_remaining hremaining).trans hrows.symm
  have hbase' : t.base = s.base := by
    rw [RotationSys.base_of_not_clearing (RotationSys.not_clearing_of_remaining hremaining), hbase, ← ht]
  refine ⟨R.toRemembers.congr ?_ ?_ fun hs => ?_, hrows' ▸ R.nodup, hrows' ▸ hbase' ▸ R.absent,
    fun h => absurd (by rw [← ht]) h⟩
  · rw [RotationSys.outcome, hrows', hbase', RotationSys.outcome]
  · rw [← ht]
    simp [RotationSys.Swapped]
  · have hover : s.Overwritten := Or.inl ⟨configs, hclearing⟩
    have hover' : t.Overwritten := Or.inr (by rw [← ht]; exact pair_sublist_concat.mpr (Or.inr ⟨R.swapped hs, rfl⟩))
    rw [RotationSys.Stale, RotationSys.Stale, and_iff_right hover, and_iff_right hover', ← ht]
    simp [RotationSys.ReadOld, pair_sublist_concat]

theorem insert (R : Rotating r table₀ s) (h : s.step r .insert = some t) : Loading r table₀ t := by
  obtain ⟨config, rest, hinserting, rfl⟩ := RotationStep.insert_inv h
  have hrows : s.rows = config :: rest := by rw [RotationSys.rows, hinserting]
  have hclearing : ¬s.Clearing := fun ⟨configs, h⟩ => by cases hinserting.symm.trans h
  have hbase := RotationSys.base_of_not_clearing hclearing
  have hnodup := R.nodup
  have habsent := R.absent
  rw [hrows] at hnodup habsent
  obtain ⟨hnot, hrest⟩ := List.nodup_cons.mp hnodup
  generalize ht : ({ s with
    credentials := insertCredential s.credentials config, reload := some (.remaining rest),
    trace := s.trace ++ [.insert] } : RotationSys) = t
  have hremaining : t.reload = some (.remaining rest) := by rw [← ht]
  have hclearing' := RotationSys.not_clearing_of_remaining hremaining
  have hrows' := RotationSys.rows_of_remaining hremaining
  have hbase' : t.base = insertCredential s.base config := by
    rw [RotationSys.base_of_not_clearing hclearing', hbase, ← ht]
  refine ⟨R.toRemembers.congr ?_ ?_ fun _ => ?_, hrows' ▸ hrest, fun config' hmem hname => ?_, fun h => ?_⟩
  · rw [RotationSys.outcome, hrows', hbase', RotationSys.outcome, hrows, List.foldl_cons]
  · rw [← ht]
    simp [RotationSys.Swapped]
  · simp only [RotationSys.Stale, RotationSys.Overwritten, iff_false_intro hclearing, iff_false_intro hclearing']
    rw [← ht]
    simp [RotationSys.ReadOld, pair_sublist_concat]
  · rw [hrows'] at hmem
    have hne : r.username ≠ config.username := fun heq => hnot (List.mem_map.mpr ⟨config', hmem, hname.trans heq⟩)
    rw [hbase', insertCredential, Function.update_of_ne hne]
    exact habsent config' (List.mem_cons_of_mem _ hmem) hname
  · by_cases hname : config.username = r.username
    · have hsome : s.outcome r.username ≠ none := by
        rw [RotationSys.outcome_apply R.nodup, hrows, List.find?_cons_of_pos (by simpa using hname)]
        simp
      by_cases hs : s.Swapped
      · exact R.known hs
      · rwa [← R.old (Or.inl hs)]
    · have hsame : t.credentials r.username = s.credentials r.username := by
        rw [← ht]
        exact Function.update_of_ne (Ne.symm hname) _ _
      exact R.stored (hsame ▸ h)

theorem start (r : Rotation) (table₀ : Socks5Table) : Rotating r table₀ (.start table₀) := by
  have hcall := CallRecorded.start r table₀
  have hnot := hcall.not_swapped rfl
  refine { hcall, ReloadRecorded.start table₀ with
    toLoading := ⟨⟨fun _ => rfl, fun _ => rfl, fun hs => absurd hs hnot, fun hs => absurd hs hnot⟩, List.nodup_nil,
      fun _ h => (by cases h), fun h => h⟩ }

theorem step {a : RotationAct} (R : Rotating r table₀ s) (h : s.step r a = some t) : Rotating r table₀ t := by
  have hloading : Loading r table₀ t := by
    cases a with
    | swap => exact R.swap h
    | update => exact R.update h
    | read => exact R.read h
    | clear => exact R.clear h
    | insert => exact R.insert h
  exact { R.toCallRecorded.step h, R.toReloadRecorded.step h, hloading with }

theorem outcome_of_idle (h : s.reload = some .idle) : s.outcome = s.credentials := by
  rw [RotationSys.outcome, RotationSys.rows, RotationSys.base, h]
  rfl

theorem overwritten_of_idle (h : s.reload = some .idle) : s.Overwritten ↔ [.swap, .clear].Sublist s.trace :=
  or_iff_right fun ⟨_, hclearing⟩ => by cases h.symm.trans hclearing

/-- Only the user's own password can differ. -/
theorem agree_iff (R : Rotating r table₀ s) (h : s.reload = some .idle) :
    s.credentials = loadFromDb s.table ↔ s.credentials r.username = loadFromDb s.table r.username := by
  refine ⟨fun h => congrFun h _, fun hsame => funext fun username => ?_⟩
  by_cases hname : username = r.username
  · rw [hname, hsame]
  · rw [← outcome_of_idle h, R.frame hname, R.loadFromDb_of_ne hname]

end Rotating

/-- Once both calls have returned, map and table are in step, and after an error the old password is accepted, exactly if
    the new password is the old one or the steps came in an order that keeps them so. -/
theorem rotation_in_step_iff {r : Rotation} {table₀ : Socks5Table} {s : RotationSys}
    (hr : Reach (RotationSys.step r) (fun _ _ => True) (.start table₀) s) (hfinished : s.Finished) :
    InStep r table₀ s ↔ loadFromDb table₀ r.username = some r.newPassword ∨ KeepsStep s.trace := by
  have R : Rotating r table₀ s := hr.inv (Rotating.start r table₀) fun _ _ _ R _ h => R.step h
  obtain ⟨⟨result, hresult⟩, hidle⟩ := hfinished
  have hmap : s.credentials r.username = s.outcome r.username := by rw [Rotating.outcome_of_idle hidle]
  rcases R.finished hresult with ⟨rfl, hupdate⟩ | ⟨rfl, hupdate, herror⟩ | ⟨e, rfl, hupdate, hok⟩
  · -- the user was not found: nothing was changed
    have hnot : ¬s.Swapped := by
      rintro (hpc | ⟨outcome, hmem⟩)
      · cases hresult.symm.trans hpc
      · exact hupdate outcome hmem
    have hold := hmap.trans (R.old (Or.inl hnot))
    refine iff_of_true ⟨(R.agree_iff hidle).mpr ?_, fun _ h => authenticate_iff.mpr (hold.trans h)⟩ (Or.inr ⟨?_, ?_⟩)
    · rw [hold, R.table_old (hupdate _)]
    · exact fun e h => absurd h (hupdate _)
    · exact fun _ h => hupdate (.ok ()) (h.subset (by simp))
  · -- the UPDATE was made: the table has the new password
    have htable := R.loadFromDb_self hupdate (R.known (.of_trace hupdate))
    have hstep : InStep r table₀ s ↔ s.credentials r.username = some r.newPassword := by
      rw [← htable, ← R.agree_iff hidle]
      exact ⟨InStep.agree, fun h => ⟨h, fun herror => by cases hresult.symm.trans herror⟩⟩
    have hkeeps : KeepsStep s.trace ↔ ¬s.Stale := by
      have hread : s.ReadOld ↔ [.read (.ok ()), .update (.ok ())].Sublist s.trace := or_iff_right (not_not.mpr hupdate)
      rw [RotationSys.Stale, Rotating.overwritten_of_idle hidle, hread, not_and]
      exact and_iff_right fun e h => absurd h (herror e)
    rw [hstep, hkeeps, hmap]
    by_cases hstale : s.Stale
    · rw [R.old (Or.inr hstale), or_iff_left (not_not.mpr hstale)]
    · exact iff_of_true (R.new (.of_trace hupdate) hstale) (Or.inr hstale)
  · -- the UPDATE failed: the table has the old password
    have hstep : InStep r table₀ s ↔ s.credentials r.username = loadFromDb table₀ r.username := by
      have htable := R.table_old hok
      constructor
      · intro h
        rw [h.agree, htable]
      · intro h
        exact ⟨(R.agree_iff hidle).mpr (by rw [h, htable]), fun _ hold => authenticate_iff.mpr (h.trans hold)⟩
    have hkeeps : KeepsStep s.trace ↔ s.Stale := by
      have hread : s.ReadOld := Or.inl hok
      rw [RotationSys.Stale, Rotating.overwritten_of_idle hidle, and_iff_left hread]
      exact ⟨fun h => h.1 e hupdate, fun h => ⟨fun _ _ => h, fun _ horder => hok (horder.subset (by simp))⟩⟩
    rw [hstep, hkeeps, hmap]
    by_cases hstale : s.Stale
    · exact iff_of_true (R.old (Or.inr hstale)) (Or.inr hstale)
    · rw [R.new (.of_trace hupdate) hstale, or_iff_left hstale, eq_comm]

/-- One reload of the sample table before the call, whose UPDATE then fails. -/
def failedUpdate : List RotationAct :=
  [.read (.ok ()), .clear, .insert, .insert, .swap, .update (.error "database is locked")]

/-- A reload that has read the rows before the UPDATE and writes them after the map was changed. -/
def staleReload : List RotationAct :=
  [.swap, .read (.ok ()), .update (.ok ()), .clear, .insert, .insert]

def Rotation.sample : Rotation := ⟨"u_a", "fresh", 1⟩

/-- After a failed UPDATE the map keeps the new password and the old one is rejected; and a reload may bring the old password
    back when the table has the new one. -/
theorem rotation_out_of_step :
    (∃ s, Reach (RotationSys.step .sample) (fun _ _ => True) (.start .sample) s ∧ s.Finished ∧
      s.rotation = .finished (.error (.db "database is locked")) ∧ loadFromDb .sample "u_a" = some "p_a" ∧
      authenticate s.credentials "u_a" "p_a" = false ∧ s.credentials "u_a" ≠ loadFromDb s.table "u_a" ∧
      ¬InStep .sample .sample s) ∧
    ∃ s, Reach (RotationSys.step .sample) (fun _ _ => True) (.start .sample) s ∧ s.Finished ∧
      s.rotation = .finished (.ok "fresh") ∧ s.credentials "u_a" = some "p_a" ∧
      loadFromDb s.table "u_a" = some "fresh" := by
  have hfailed : exec (RotationSys.step .sample) (.start .sample) failedUpdate = some _ := rfl
  have hstale : exec (RotationSys.step .sample) (.start .sample) staleReload = some _ := rfl
  refine ⟨⟨_, Reach.of_exec (fun _ _ => trivial) hfailed, ⟨⟨_, rfl⟩, rfl⟩, rfl, by decide +kernel, by decide +kernel,
    by decide +kernel, fun h => ?_⟩, _, Reach.of_exec (fun _ _ => trivial) hstale, ⟨⟨_, rfl⟩, rfl⟩, rfl, by decide +kernel,
    by decide +kernel⟩
  exact absurd (congrFun h.agree "u_a") (by decide +kernel)

/-- A reload after the rotation. -/
theorem rotation_in_step_iff_sample :
    ∃ s, s.rotation = .finished (.ok "fresh") ∧ InStep .sample .sample s ∧ KeepsStep s.trace := by
  have hrun : exec (RotationSys.step .sample) (.start .sample)
    [.swap, .update (.ok ()), .read (.ok ()), .clear, .insert, .insert] = some _ := rfl
  have hkeeps : KeepsStep [.swap, .update (.ok ()), .read (.ok ()), .clear, .insert, .insert] := by
    refine ⟨fun e h => by simp at h, fun _ h => ?_⟩
    simp [List.sublist_cons_iff] at h
  exact ⟨_, rfl, (rotation_in_step_iff (Reach.of_exec (fun _ _ => trivial) hrun) ⟨⟨_, rfl⟩, rfl⟩).mpr (Or.inr hkeeps),
    hkeeps⟩

end TpnWorker
