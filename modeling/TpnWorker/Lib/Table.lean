import Mathlib.Order.Basic
import Mathlib.Order.Defs.LinearOrder
import Mathlib.Data.List.DropRight
import Mathlib.Data.List.Nodup
import Mathlib.Data.List.Sort

/-! Database tables with a primary key. The rows stand in ascending order of their key, so a key names
    at most one row and a scan in key order is the list itself. The statements are `DELETE WHERE`,
    `UPDATE WHERE` and `INSERT ... ON CONFLICT DO UPDATE`; each comes with what a lookup finds after it.
    A scan may be cut to a page, and a column other than the key may be looked up. -/

namespace Keyed

/-- A table whose rows stand in ascending order of their primary key. -/
@[ext]
structure Table (κ ρ : Type) [LinearOrder κ] (key : ρ → κ) where
  rows : List ρ
  sorted : rows.Pairwise fun r r' => key r < key r'

namespace Table

variable {κ ρ : Type} [LinearOrder κ] {key : ρ → κ}

/-- The table without rows. -/
def empty : Table κ ρ key := ⟨[], .nil⟩

/-- The row stored under `k`. -/
def get? (t : Table κ ρ key) (k : κ) : Option ρ := t.rows.find? fun r => decide (key r = k)

/-- The number of rows that a statement with this `WHERE` touches. -/
def affected (t : Table κ ρ key) (p : ρ → Bool) : Nat := (t.rows.filter p).length

/-- `DELETE FROM t WHERE p`. -/
def deleteWhere (t : Table κ ρ key) (p : ρ → Bool) : Table κ ρ key :=
  ⟨t.rows.filter fun r => !p r, t.sorted.filter _⟩

/-- `UPDATE t SET f WHERE p`, where `f` leaves the key alone. -/
def updateWhere (t : Table κ ρ key) (p : ρ → Bool) (f : ρ → ρ) (hf : ∀ r, key (f r) = key r := by intro _; rfl) :
    Table κ ρ key where
  rows := t.rows.map fun r => if p r then f r else r
  sorted := List.pairwise_map.mpr (t.sorted.imp fun {r r'} h => by
    have hkey : ∀ x : ρ, key (if p x then f x else x) = key x := fun x => by
      split
      · exact hf x
      · rfl
    simpa only [hkey] using h)

/-- The rows with `r` put in its place, or with `f` applied to the row that has its key. -/
def upsertRows (key : ρ → κ) (r : ρ) (f : ρ → ρ) : List ρ → List ρ
  | [] => [r]
  | x :: xs => if key r < key x then r :: x :: xs else if key r = key x then f x :: xs else x :: upsertRows key r f xs

theorem mem_upsertRows {r x : ρ} {f : ρ → ρ} (hf : ∀ r, key (f r) = key r) :
    ∀ {l : List ρ}, x ∈ upsertRows key r f l → key x = key r ∨ x ∈ l
  | [], h => by
    obtain rfl := List.mem_singleton.mp h
    exact Or.inl rfl
  | y :: ys, h => by
    simp only [upsertRows] at h
    split at h
    · rcases List.mem_cons.mp h with rfl | h
      · exact Or.inl rfl
      · exact Or.inr h
    · split at h
      · next hkey =>
        rcases List.mem_cons.mp h with rfl | h
        · exact Or.inl ((hf y).trans hkey.symm)
        · exact Or.inr (List.mem_cons_of_mem _ h)
      · rcases List.mem_cons.mp h with rfl | h
        · exact Or.inr List.mem_cons_self
        · exact (mem_upsertRows hf h).imp_right (List.mem_cons_of_mem _)

theorem upsertRows_sorted {r : ρ} {f : ρ → ρ} (hf : ∀ r, key (f r) = key r) :
    ∀ {l : List ρ}, l.Pairwise (fun r r' => key r < key r') →
      (upsertRows key r f l).Pairwise fun r r' => key r < key r'
  | [], _ => List.pairwise_singleton _ _
  | y :: ys, h => by
    obtain ⟨hy, hys⟩ := List.pairwise_cons.mp h
    simp only [upsertRows]
    split
    · next hlt => exact List.pairwise_cons.mpr ⟨fun z hz => by
        rcases List.mem_cons.mp hz with rfl | hz
        · exact hlt
        · exact hlt.trans (hy z hz), h⟩
    · next hlt =>
      split
      · exact List.pairwise_cons.mpr ⟨fun z hz => (hf y).symm ▸ hy z hz, hys⟩
      · next hne =>
        refine List.pairwise_cons.mpr ⟨fun z hz => ?_, upsertRows_sorted hf hys⟩
        rcases mem_upsertRows hf hz with hz | hz
        · rw [hz]
          exact lt_of_le_of_ne (not_lt.mp hlt) (Ne.symm hne)
        · exact hy z hz

/-- `INSERT INTO t VALUES r ON CONFLICT (key) DO UPDATE SET f`. -/
def upsert (t : Table κ ρ key) (r : ρ) (f : ρ → ρ) (hf : ∀ r, key (f r) = key r := by intro _; rfl) :
    Table κ ρ key :=
  ⟨upsertRows key r f t.rows, upsertRows_sorted hf t.sorted⟩

/-- `INSERT INTO t VALUES r` with a key behind all others. -/
def append (t : Table κ ρ key) (r : ρ) (h : ∀ x ∈ t.rows, key x < key r) : Table κ ρ key :=
  ⟨t.rows ++ [r], List.pairwise_append.mpr ⟨t.sorted, List.pairwise_singleton _ _, fun x hx y hy => by
    rw [List.mem_singleton.mp hy]
    exact h x hx⟩⟩

/-- The AUTOINCREMENT key of the next row: behind every key in the table and behind the largest one ever assigned. -/
def nextKey {key : ρ → Int} (t : Table Int ρ key) (sequence : Int) : Int := (t.rows.map key).foldr max sequence + 1

theorem lt_nextKey {key : ρ → Int} {t : Table Int ρ key} {r : ρ} (sequence : Int) (h : r ∈ t.rows) :
    key r < t.nextKey sequence := by
  have hle : ∀ {ks : List Int} {k : Int}, k ∈ ks → k ≤ ks.foldr max sequence := by
    intro ks k hk
    induction ks with
    | nil => cases hk
    | cons k' ks ih =>
      rcases List.mem_cons.mp hk with rfl | hk
      · exact le_max_left _ _
      · exact (ih hk).trans (le_max_right _ _)
  exact Int.lt_add_one_of_le (hle (List.mem_map_of_mem h))

/-! ### Lookups -/

theorem keys_nodup (t : Table κ ρ key) : (t.rows.map key).Nodup :=
  List.pairwise_map.mpr (t.sorted.imp fun h => h.ne)

theorem eq_of_key {t : Table κ ρ key} {r r' : ρ} (hr : r ∈ t.rows) (hr' : r' ∈ t.rows) (h : key r = key r') :
    r = r' :=
  List.inj_on_of_nodup_map t.keys_nodup hr hr' h

theorem get?_eq_some_iff {t : Table κ ρ key} {k : κ} {r : ρ} : t.get? k = some r ↔ r ∈ t.rows ∧ key r = k := by
  constructor
  · intro h
    exact ⟨List.mem_of_find?_eq_some h, by simpa using List.find?_some h⟩
  · rintro ⟨hr, rfl⟩
    cases hf : t.get? (key r) with
    | none =>
      rw [get?, List.find?_eq_none] at hf
      exact absurd (decide_eq_true rfl) (hf r hr)
    | some r' =>
      have hr' : r' ∈ t.rows := List.mem_of_find?_eq_some hf
      have hk : key r' = key r := by simpa using List.find?_some hf
      rw [eq_of_key hr' hr hk]

theorem get?_key {t : Table κ ρ key} {k : κ} {r : ρ} (h : t.get? k = some r) : key r = k := (get?_eq_some_iff.mp h).2

theorem get?_of_mem {t : Table κ ρ key} {r : ρ} (h : r ∈ t.rows) : t.get? (key r) = some r :=
  get?_eq_some_iff.mpr ⟨h, rfl⟩

/-- A table is determined by its lookups. -/
theorem eq_of_get? {t t' : Table κ ρ key} (h : ∀ k, t.get? k = t'.get? k) : t = t' := by
  have : Std.Irrefl fun r r' : ρ => key r < key r' := ⟨fun r => lt_irrefl (key r)⟩
  have : Std.Antisymm fun r r' : ρ => key r < key r' := ⟨fun r r' h h' => absurd h' (lt_asymm h)⟩
  refine Table.ext (t.sorted.eq_of_mem_iff t'.sorted fun {r} => ?_)
  have hr := Iff.of_eq (congrArg (· = some r) (h (key r)))
  simpa only [get?_eq_some_iff, and_true] using hr

@[simp] theorem get?_empty {k : κ} : (empty : Table κ ρ key).get? k = none := rfl

theorem get?_deleteWhere (t : Table κ ρ key) (p : ρ → Bool) (k : κ) :
    (t.deleteWhere p).get? k = (t.get? k).filter fun r => !p r := by
  apply Option.ext
  intro r
  simp only [get?_eq_some_iff, deleteWhere, List.mem_filter, Option.filter_eq_some_iff]
  constructor
  · rintro ⟨⟨hr, hp⟩, hk⟩
    exact ⟨⟨hr, hk⟩, hp⟩
  · rintro ⟨⟨hr, hk⟩, hp⟩
    exact ⟨⟨hr, hp⟩, hk⟩

/-- A DELETE of all but the last `n` rows. -/
theorem rows_deleteWhere_notMem_rtake (t : Table κ ρ key) (n : ℕ) :
    (t.deleteWhere fun r => decide (key r ∉ (t.rows.rtake n).map key)).rows = t.rows.rtake n := by
  have hsplit : t.rows = t.rows.take (t.rows.length - n) ++ t.rows.rtake n := (List.take_append_drop _ _).symm
  have hbefore : ∀ r ∈ t.rows.take (t.rows.length - n), key r ∉ (t.rows.rtake n).map key := by
    intro r hr hmem
    obtain ⟨r', hr', hkey⟩ := List.mem_map.mp hmem
    have hsorted := t.sorted
    rw [hsplit] at hsorted
    exact ((List.pairwise_append.mp hsorted).2.2 r hr r' hr').ne hkey.symm
  have hrest : (t.rows.take (t.rows.length - n)).filter (fun r => decide (key r ∈ (t.rows.rtake n).map key)) = [] := by
    refine List.filter_eq_nil_iff.mpr fun r hr => ?_
    simpa using hbefore r hr
  have hlast : (t.rows.rtake n).filter (fun r => decide (key r ∈ (t.rows.rtake n).map key)) = t.rows.rtake n :=
    List.filter_eq_self.mpr fun r hr => decide_eq_true (List.mem_map_of_mem hr)
  simp only [deleteWhere, decide_not, Bool.not_not]
  refine (congrArg (List.filter _) hsplit).trans ?_
  rw [List.filter_append, hrest, hlast, List.nil_append]

/-- Every row of `t'` comes from the row that `t` has under its key, and `R` relates the two. -/
def RowsFrom (R : ρ → ρ → Prop) (t t' : Table κ ρ key) : Prop :=
  ∀ k r, t'.get? k = some r → ∃ r₀, t.get? k = some r₀ ∧ R r₀ r

section RowsFrom
variable {R : ρ → ρ → Prop} (hR : ∀ r, R r r)
include hR

theorem RowsFrom.refl (t : Table κ ρ key) : RowsFrom R t t := fun _ r h => ⟨r, h, hR r⟩

theorem RowsFrom.deleteWhere (t : Table κ ρ key) (p : ρ → Bool) : RowsFrom R t (t.deleteWhere p) := by
  intro k r h
  rw [get?_deleteWhere, Option.filter_eq_some_iff] at h
  exact ⟨r, h.1, hR r⟩

end RowsFrom

theorem get?_updateWhere (t : Table κ ρ key) (p : ρ → Bool) (f : ρ → ρ) (hf : ∀ r, key (f r) = key r) (k : κ) :
    (t.updateWhere p f hf).get? k = (t.get? k).map fun r => if p r then f r else r := by
  have hkey : ∀ x : ρ, key (if p x then f x else x) = key x := fun x => by
    split
    · exact hf x
    · rfl
  apply Option.ext
  intro r
  simp only [get?_eq_some_iff, updateWhere, List.mem_map, Option.map_eq_some_iff]
  constructor
  · rintro ⟨⟨x, hx, rfl⟩, hk⟩
    exact ⟨x, ⟨hx, by rw [← hk, hkey]⟩, rfl⟩
  · rintro ⟨x, ⟨hx, hk⟩, rfl⟩
    exact ⟨⟨x, hx, rfl⟩, by rw [hkey, hk]⟩

theorem find?_upsertRows {r : ρ} {f : ρ → ρ} (hf : ∀ r, key (f r) = key r) (k : κ) :
    ∀ {l : List ρ}, l.Pairwise (fun r r' => key r < key r') →
      (upsertRows key r f l).find? (fun x => decide (key x = k)) =
        if k = key r then some (((l.find? fun x => decide (key x = k)).map f).getD r)
        else l.find? fun x => decide (key x = k)
  | [], _ => by
    by_cases hk : k = key r
    · simp [upsertRows, hk]
    · simp [upsertRows, hk, Ne.symm hk]
  | y :: ys, h => by
    obtain ⟨hy, hys⟩ := List.pairwise_cons.mp h
    simp only [upsertRows]
    split
    · next hlt =>
      have hnone : (y :: ys).find? (fun x => decide (key x = key r)) = none := by
        rw [List.find?_eq_none]
        intro z hz
        have : key r < key z := by
          rcases List.mem_cons.mp hz with rfl | hz
          · exact hlt
          · exact hlt.trans (hy z hz)
        simpa using this.ne'
      by_cases hk : k = key r
      · subst hk
        rw [List.find?_cons_of_pos (by simp), hnone]
        simp
      · rw [List.find?_cons_of_neg (by simpa using Ne.symm hk), ite_eq_right_iff.mpr fun h => absurd h hk]
    · split
      · next heq =>
        by_cases hk : k = key r
        · subst hk
          simp [hf, heq]
        · have hne : key y ≠ k := fun h => hk (h.symm.trans heq.symm)
          simp [hf, hne, hk]
      · next hne =>
        by_cases hyk : key y = k
        · have : k ≠ key r := fun h => hne (h.symm.trans hyk.symm)
          simp [hyk, this]
        · simp only [List.find?_cons_of_neg (a := y) (l := ys) (p := fun x => decide (key x = k)) (by simpa using hyk)]
          rw [List.find?_cons_of_neg (by simpa using hyk)]
          exact find?_upsertRows hf k hys

theorem get?_upsert (t : Table κ ρ key) (r : ρ) (f : ρ → ρ) (hf : ∀ r, key (f r) = key r) (k : κ) :
    (t.upsert r f hf).get? k = if k = key r then some (((t.get? k).map f).getD r) else t.get? k :=
  find?_upsertRows hf k t.sorted

theorem affected_eq_zero_iff {t : Table κ ρ key} {p : ρ → Bool} : t.affected p = 0 ↔ ∀ r ∈ t.rows, p r = false := by
  simp [affected, List.filter_eq_nil_iff]

theorem updateWhere_eq_self {t : Table κ ρ key} {p : ρ → Bool} {f : ρ → ρ} {hf : ∀ r, key (f r) = key r}
    (h : t.affected p = 0) : t.updateWhere p f hf = t := by
  rw [affected_eq_zero_iff] at h
  apply Table.ext
  conv_rhs => rw [← List.map_id t.rows]
  exact List.map_congr_left fun r hr => by simp [h r hr]

/-- A statement whose `WHERE` names one key touches no row unless the row under that key satisfies it. -/
theorem affected_key_eq_zero_iff {t : Table κ ρ key} {p : ρ → Bool} {k : κ} (hp : ∀ r, p r = true → key r = k) :
    t.affected p = 0 ↔ ∀ r, t.get? k = some r → p r = false := by
  rw [affected_eq_zero_iff]
  constructor
  · intro h r hr
    exact h r (get?_eq_some_iff.mp hr).1
  · intro h r hr
    by_contra hpr
    have hpr : p r = true := by simpa using hpr
    exact absurd (h r (get?_eq_some_iff.mpr ⟨hr, hp r hpr⟩)) (by simp [hpr])

/-! ### Another column -/

section Column
variable {γ : Type} {col : ρ → γ}

theorem map_updateWhere {t : Table κ ρ key} {p : ρ → Bool} {f : ρ → ρ} (hf : ∀ r, key (f r) = key r)
    (hcol : ∀ r, col (f r) = col r) : (t.updateWhere p f hf).rows.map col = t.rows.map col := by
  simp only [updateWhere, List.map_map]
  refine List.map_congr_left fun r _ => ?_
  simp only [Function.comp_apply]
  split
  · exact hcol r
  · rfl

variable [DecidableEq γ]

/-- The first row whose column has the value `v`. -/
def findBy (t : Table κ ρ key) (col : ρ → γ) (v : γ) : Option ρ := t.rows.find? fun r => decide (col r = v)

/-- In a column without repetitions, the row that has a value. -/
theorem findBy_eq_some_iff {t : Table κ ρ key} (hcol : (t.rows.map col).Nodup) {v : γ} {r : ρ} :
    t.findBy col v = some r ↔ r ∈ t.rows ∧ col r = v := by
  constructor
  · intro h
    exact ⟨List.mem_of_find?_eq_some h, by simpa using List.find?_some h⟩
  · rintro ⟨hr, rfl⟩
    cases hf : t.findBy col (col r) with
    | none =>
      rw [findBy, List.find?_eq_none] at hf
      exact absurd (decide_eq_true rfl) (hf r hr)
    | some r' =>
      have hr' : r' ∈ t.rows := List.mem_of_find?_eq_some hf
      have hv : col r' = col r := by simpa using List.find?_some hf
      rw [List.inj_on_of_nodup_map hcol hr' hr hv]

theorem findBy_updateWhere {t : Table κ ρ key} {p : ρ → Bool} {f : ρ → ρ} (hf : ∀ r, key (f r) = key r)
    (hcol : ∀ r, col (f r) = col r) (v : γ) :
    (t.updateWhere p f hf).findBy col v = (t.findBy col v).map fun r => if p r then f r else r := by
  have hsame : ∀ r, col (if p r then f r else r) = col r := fun r => by
    split
    · exact hcol r
    · rfl
  simp only [findBy, updateWhere, List.find?_map, Function.comp_def, hsame]

theorem findBy_append {t : Table κ ρ key} {r : ρ} (h : ∀ x ∈ t.rows, key x < key r) (v : γ) :
    (t.append r h).findBy col v = (t.findBy col v).or (if col r = v then some r else none) := by
  rw [findBy, findBy, append, List.find?_append]
  congr 1
  split
  · next hv => exact List.find?_cons_of_pos (decide_eq_true hv)
  · next hv => exact List.find?_cons_of_neg (by simpa using hv)

theorem findBy_deleteWhere {t : Table κ ρ key} {p : ρ → Bool} {q : γ → Bool} (hp : ∀ r, p r = q (col r)) (v : γ) :
    (t.deleteWhere p).findBy col v = if q v then none else t.findBy col v := by
  rw [findBy, findBy, deleteWhere, List.find?_filter]
  split
  · next hv =>
    refine List.find?_eq_none.mpr fun r _ => ?_
    rw [hp, decide_eq_true_eq]
    rintro ⟨hkeep, hcol⟩
    rw [of_decide_eq_true hcol, hv] at hkeep
    cases hkeep
  · next hv =>
    congr 1
    funext r
    rw [hp]
    by_cases hcol : col r = v
    · simp [hcol, hv]
    · simp [hcol]

end Column

end Table

/-! ### Pages of a scan -/

section Page
variable {ρ : Type} {p : ρ → Bool} {l : List ρ} {n : Int} {r : ρ}

/-- `LIMIT limit OFFSET offset`: a negative limit is none, and a negative offset is zero. -/
def page (limit offset : Int) (l : List ρ) : List ρ :=
  let rest := l.drop offset.toNat
  if limit < 0 then rest else rest.take limit.toNat

theorem mem_of_mem_page {limit offset : Int} (h : r ∈ page limit offset l) : r ∈ l := by
  simp only [page] at h
  split at h
  · exact List.mem_of_mem_drop h
  · exact List.mem_of_mem_drop (List.mem_of_mem_take h)

/-- If the first `n` rows all match, they lead the rows that match. -/
theorem filter_of_take {n : ℕ} (h : ∀ r ∈ l.take n, p r = true) : l.filter p = l.take n ++ (l.drop n).filter p := by
  conv_lhs => rw [← List.take_append_drop n l]
  rw [List.filter_append, List.filter_eq_self.mpr h]

/-- If the first `n` rows all match, the first page of the matching rows lies in them. -/
theorem mem_take_of_mem_page (hn : 0 ≤ n) (h : ∀ r ∈ l.take n.toNat, p r = true)
    (hr : r ∈ page n 0 (l.filter p)) : r ∈ l.take n.toNat := by
  rw [page, if_neg (by omega), filter_of_take h, Int.toNat_zero, List.drop_zero] at hr
  by_cases hlen : n.toNat ≤ l.length
  · rw [List.take_append_of_le_length (by rw [List.length_take]; omega)] at hr
    exact List.mem_of_mem_take hr
  · have hnil : l.drop n.toNat = [] := List.drop_eq_nil_of_le (by omega)
    rw [hnil, List.filter_nil, List.append_nil] at hr
    exact List.mem_of_mem_take hr

/-- If the first `n` rows all match, a page that skips `n` matching rows lies behind them. -/
theorem mem_drop_of_mem_page {limit : Int} (h : ∀ r ∈ l.take n.toNat, p r = true)
    (hr : r ∈ page limit n (l.filter p)) : r ∈ l.drop n.toNat ∧ p r = true := by
  have hdrop : r ∈ (l.filter p).drop n.toNat := by
    simp only [page] at hr
    split at hr
    · exact hr
    · exact List.mem_of_mem_take hr
  rw [filter_of_take h, List.drop_append, List.drop_eq_nil_of_le (by rw [List.length_take]; omega), List.nil_append]
    at hdrop
  exact List.mem_filter.mp (List.mem_of_mem_drop hdrop)

end Page

end Keyed
