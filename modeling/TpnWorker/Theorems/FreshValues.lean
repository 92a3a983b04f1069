import TpnWorker.Concurrent.Cache
import TpnWorker.Lib.Update

/-! The cache has every value that was set last under its key and whose lifetime has not ended, except where a `get` that
    found an expired value removes the one that was set after its lookup. -/

namespace TpnWorker
open Transition

/-- The removal at the end of a `get` hits an entry whose lifetime has not ended. -/
def DropsFresh (s : CacheSys) : CacheAct → Prop
  | .drop call => ∃ key ∈ s.dropped call, ∃ entry ∈ s.cache key, entry.Fresh s.clock
  | _ => False

instance (s : CacheSys) (a : CacheAct) : Decidable (DropsFresh s a) :=
  match a with
  | .drop call => inferInstanceAs (Decidable (∃ key ∈ s.dropped call, ∃ entry ∈ s.cache key, entry.Fresh s.clock))
  | .tick _ | .lookup .. | .read _ | .prepare .. | .insert _ | .remove _ | .readEvict _ | .retain _ => isFalse not_false

namespace CacheAnswer

/-- What was due and fresh is returned. -/
def Complete (a : CacheAnswer) : Prop := ∀ entry ∈ a.due, entry.Fresh a.now → a.value = some entry.value

/-- What is returned was due and fresh. -/
def Sound (a : CacheAnswer) : Prop := ∀ value ∈ a.value, ∃ entry ∈ a.due, entry.value = value ∧ entry.Fresh a.now

end CacheAnswer

/-- What every run keeps: the cache has nothing but what is due. -/
structure Cached (s : CacheSys) : Prop where
  due : ∀ {key entry}, s.cache key = some entry → s.due key = some entry
  reading : ∀ {call key entry due}, s.calls call = some (.reading key entry due) → due = some entry
  retaining : ∀ {call now}, s.calls call = some (.retaining now) → now ≤ s.clock
  sound : ∀ a ∈ s.answers, a.Sound

namespace Cached
variable {s t : CacheSys} {a : CacheAct} {call : ℕ} {key : String} {pc : CachePc}

theorem start (clock : Int) (cache : TtlCache) : Cached (.start clock cache) :=
  ⟨fun h => h, fun h => (by cases h), fun h => (by cases h), fun _ h => (by cases h)⟩

theorem goto (R : Cached s) (call : ℕ) (hreading : ∀ {key entry due}, pc = .reading key entry due → due = some entry)
    (hretaining : ∀ {now}, pc = .retaining now → now ≤ s.clock) : Cached (s.goto call pc) where
  due := R.due
  reading h := (Function.update_some_cases h).elim (fun h => hreading h.2.symm) fun h => R.reading h.2
  retaining h := (Function.update_some_cases h).elim (fun h => hretaining h.2.symm) fun h => R.retaining h.2
  sound := R.sound

theorem finished (R : Cached s) (call : ℕ) : Cached (s.goto call .finished) := R.goto call (by simp) (by simp)

theorem answer (R : Cached s) {due : Option CacheEntry} {value : Option Json}
    (h : CacheAnswer.Sound ⟨key, due, s.clock, value⟩) : Cached (s.answer key due value) :=
  { R with sound := List.forall_mem_cons.mpr ⟨h, R.sound⟩ }

/-- Entries may go without a caller. -/
theorem of_le (R : Cached s) {cache : TtlCache} (hle : ∀ {key entry}, cache key = some entry → s.cache key = some entry) :
    Cached { s with cache } :=
  { R with due := fun h => R.due (hle h) }

theorem step (R : Cached s) (h : s.step a = some t) : Cached t := by
  cases a with
  | tick now =>
    obtain ⟨hle, rfl⟩ := CacheStep.tick_inv h
    exact { R with retaining := fun h => (R.retaining h).trans hle }
  | lookup call key =>
    rcases CacheStep.lookup_inv h with ⟨-, rfl⟩ | ⟨entry, hentry, rfl⟩
    · exact (R.finished call).answer fun _ h => by cases h
    · refine R.goto call (fun h => ?_) (by simp)
      cases h
      exact R.due hentry
  | read call =>
    obtain ⟨key, entry, due, hcall, ⟨-, rfl⟩ | ⟨hfresh, rfl⟩⟩ := CacheStep.read_inv h
    · exact (R.goto call (by simp) (by simp)).answer fun _ h => by cases h
    · refine (R.finished call).answer fun value h => ?_
      cases h
      exact ⟨entry, R.reading hcall, rfl, hfresh⟩
  | drop call =>
    obtain ⟨key, -, rfl⟩ := CacheStep.drop_inv h
    exact (R.finished call).of_le fun h => (Function.update_none_cases h).2
  | prepare call key value ttl =>
    rw [CacheStep.prepare_inv h]
    exact R.goto call (by simp) (by simp)
  | insert call =>
    obtain ⟨key, entry, rfl⟩ := CacheStep.insert_inv h
    refine { R.finished call with due := fun {key' entry'} h => ?_ }
    rcases Function.update_some_cases h with ⟨rfl, rfl⟩ | ⟨hkey, h⟩
    · exact Function.update_self ..
    · exact (Function.update_of_ne hkey _ _).trans (R.due h)
  | remove key =>
    cases h
    refine { R with due := fun {key' entry'} h => ?_ }
    obtain ⟨hkey, h⟩ := Function.update_none_cases h
    exact (Function.update_of_ne hkey _ _).trans (R.due h)
  | readEvict call =>
    rw [CacheStep.readEvict_inv h]
    refine R.goto call (by simp) fun h => ?_
    cases h
    exact le_rfl
  | retain call =>
    obtain ⟨now, -, rfl⟩ := CacheStep.retain_inv h
    exact (R.finished call).of_le fun h => (Option.mem_filter_iff.mp h).1

end Cached

/-- What is kept as long as no `get` drops a fresh entry: the cache has all that is due and fresh. -/
structure Keeps (s : CacheSys) : Prop extends Cached s where
  kept : ∀ {key entry}, s.due key = some entry → entry.Fresh s.clock → s.cache key = some entry
  complete : ∀ a ∈ s.answers, a.Complete

namespace Keeps
variable {s t : CacheSys} {a : CacheAct}

theorem start (clock : Int) (cache : TtlCache) : Keeps (.start clock cache) :=
  { Cached.start clock cache with kept := fun h _ => h, complete := fun _ h => by cases h }

theorem kept_step (R : Keeps s) (hdrop : ¬DropsFresh s a) (h : s.step a = some t) {key : String} {entry : CacheEntry}
    (hdue : t.due key = some entry) (hfresh : entry.Fresh t.clock) : t.cache key = some entry := by
  cases a with
  | tick now =>
    obtain ⟨hle, rfl⟩ := CacheStep.tick_inv h
    exact R.kept hdue (hfresh.mono hle)
  | lookup call key' => rcases CacheStep.lookup_inv h with ⟨-, rfl⟩ | ⟨_, -, rfl⟩ <;> exact R.kept hdue hfresh
  | read call => obtain ⟨_, _, _, -, ⟨-, rfl⟩ | ⟨-, rfl⟩⟩ := CacheStep.read_inv h <;> exact R.kept hdue hfresh
  | drop call =>
    obtain ⟨key', hcall, rfl⟩ := CacheStep.drop_inv h
    have hentry := R.kept hdue hfresh
    have hkey : key ≠ key' := fun hkey => hdrop ⟨key', hcall, entry, hkey ▸ hentry, hfresh⟩
    exact (Function.update_of_ne hkey _ _).trans hentry
  | prepare call key' value ttl =>
    rw [CacheStep.prepare_inv h] at hdue hfresh ⊢
    exact R.kept hdue hfresh
  | insert call =>
    obtain ⟨key', entry', rfl⟩ := CacheStep.insert_inv h
    rcases Function.update_some_cases hdue with ⟨rfl, rfl⟩ | ⟨hkey, hdue⟩
    · exact Function.update_self ..
    · exact (Function.update_of_ne hkey _ _).trans (R.kept hdue hfresh)
  | remove key' =>
    cases h
    obtain ⟨hkey, hdue⟩ := Function.update_none_cases hdue
    exact (Function.update_of_ne hkey _ _).trans (R.kept hdue hfresh)
  | readEvict call =>
    rw [CacheStep.readEvict_inv h] at hdue hfresh ⊢
    exact R.kept hdue hfresh
  | retain call =>
    obtain ⟨now, hcall, rfl⟩ := CacheStep.retain_inv h
    exact Option.mem_filter_iff.mpr ⟨R.kept hdue hfresh, CacheEntry.retained_iff.mpr (hfresh.mono (R.retaining hcall))⟩

theorem complete_step (R : Keeps s) (h : s.step a = some t) : ∀ a ∈ t.answers, a.Complete := by
  have hother : t.answers = s.answers → ∀ a ∈ t.answers, a.Complete := fun hanswers => hanswers ▸ R.complete
  cases a with
  | lookup call key =>
    rcases CacheStep.lookup_inv h with ⟨hmiss, rfl⟩ | ⟨_, -, rfl⟩
    · refine List.forall_mem_cons.mpr ⟨fun entry hdue hfresh => ?_, R.complete⟩
      cases hmiss.symm.trans (R.kept hdue hfresh)
    · exact hother rfl
  | read call =>
    obtain ⟨key, entry, due, hcall, ⟨hexpired, rfl⟩ | ⟨-, rfl⟩⟩ := CacheStep.read_inv h
    all_goals
      refine List.forall_mem_cons.mpr ⟨fun entry' hdue hfresh => ?_, R.complete⟩
      cases (R.reading hcall).symm.trans hdue
    · exact absurd hfresh hexpired
    · rfl
  | drop call =>
    obtain ⟨_, -, rfl⟩ := CacheStep.drop_inv h
    exact hother rfl
  | insert call =>
    obtain ⟨_, _, rfl⟩ := CacheStep.insert_inv h
    exact hother rfl
  | retain call =>
    obtain ⟨_, -, rfl⟩ := CacheStep.retain_inv h
    exact hother rfl
  | tick now => exact hother (by rw [(CacheStep.tick_inv h).2])
  | prepare call key value ttl => exact hother (by rw [CacheStep.prepare_inv h]; rfl)
  | remove key => exact hother (by cases h; rfl)
  | readEvict call => exact hother (by rw [CacheStep.readEvict_inv h]; rfl)

theorem step (R : Keeps s) (hdrop : ¬DropsFresh s a) (h : s.step a = some t) : Keeps t :=
  { R.toCached.step h with kept := R.kept_step hdrop h, complete := R.complete_step h }

/-- After a fresh entry was dropped, a `get` that starts then misses a value that is due. -/
theorem missed_of_dropsFresh (R : Keeps s) (hdrop : DropsFresh s a) (h : s.step a = some t) :
    ∃ key entry, t.due key = some entry ∧ entry.Fresh t.clock ∧ ∀ call, t.calls call = none →
      ∃ u, t.step (.lookup call key) = some u ∧ ⟨key, some entry, t.clock, none⟩ ∈ u.answers := by
  cases a with
  | drop call =>
    obtain ⟨key, hkey, entry, hentry, hfresh⟩ := hdrop
    obtain ⟨key', hkey', rfl⟩ := CacheStep.drop_inv h
    cases hkey.symm.trans hkey'
    refine ⟨key, entry, R.due hentry, hfresh, fun call' hcall' => ?_⟩
    refine ⟨_, CacheStep.lookup_of_miss hcall' (Function.update_self ..), ?_⟩
    rw [← R.due hentry]
    exact List.mem_cons_self
  | _ => exact absurd hdrop not_false

end Keeps

/-- No `get` of any run returns a value whose lifetime had ended. -/
theorem expired_never_returned {clock : Int} {cache : TtlCache} {s : CacheSys}
    (hr : Reach CacheSys.step (fun _ _ => True) (.start clock cache) s) : ∀ a ∈ s.answers, a.Sound :=
  (hr.inv (Cached.start clock cache) fun _ _ _ R _ h => R.step h).sound

/-- As long as no `get` drops a fresh entry, the answers are the values that were due and whose lifetime had not ended; and
    where one does, the next `get` of the key misses. -/
theorem fresh_values_returned {clock : Int} {cache : TtlCache} {s : CacheSys}
    (hr : Reach CacheSys.step (fun s a => ¬DropsFresh s a) (.start clock cache) s) :
    (∀ a ∈ s.answers, a.Complete ∧ a.Sound) ∧
      ∀ a t, DropsFresh s a → s.step a = some t → ∃ key entry, t.due key = some entry ∧ entry.Fresh t.clock ∧
        ∀ call, t.calls call = none →
          ∃ u, t.step (.lookup call key) = some u ∧ ⟨key, some entry, t.clock, none⟩ ∈ u.answers := by
  have R : Keeps s := hr.inv (Keeps.start clock cache) fun _ _ _ R hdrop h => R.step hdrop h
  exact ⟨fun a ha => ⟨R.complete a ha, R.sound a ha⟩, fun _ _ hdrop h => R.missed_of_dropsFresh hdrop h⟩

/-- The key `k` is set again while a `get` that found its value expired is about to remove it. -/
def overlappingGet : List CacheAct :=
  [.prepare 0 "k" (.str "old") (some 1), .insert 0, .tick 5, .lookup 1 "k", .read 1,
    .prepare 2 "k" (.str "new") (some 10), .insert 2, .drop 1, .lookup 3 "k"]

/-- The new value is lost: a `get` within its lifetime returns nothing. -/
theorem fresh_value_lost :
    ∃ s entry, Reach CacheSys.step (fun _ _ => True) (.start 0 .new) s ∧ s.due "k" = some entry ∧
      entry.value = .str "new" ∧ entry.Fresh s.clock ∧ ⟨"k", some entry, 5, none⟩ ∈ s.answers ∧
      ¬∀ a ∈ s.answers, a.Complete := by
  have hrun : exec CacheSys.step (.start 0 .new) overlappingGet = some _ := rfl
  refine ⟨_, ⟨.str "new", some 15⟩, Reach.of_exec (fun _ _ => trivial) hrun, rfl, rfl, by decide, List.mem_cons_self, ?_⟩
  intro hall
  cases hall _ List.mem_cons_self _ rfl (by decide)

/-- A value that is read within its lifetime, and removed after it. -/
theorem fresh_values_returned_sample :
    ∃ s, Reach CacheSys.step (fun s a => ¬DropsFresh s a) (.start 0 .new) s ∧ s.answers.length = 2 ∧
      ∀ a ∈ s.answers, a.Complete ∧ a.Sound := by
  have hrun : execWhen CacheSys.step (fun s a => ¬DropsFresh s a) (.start 0 .new)
      [.prepare 0 "k" (.str "old") (some 1), .insert 0, .lookup 1 "k", .read 1, .tick 5, .lookup 2 "k", .read 2, .drop 2] =
        some _ := rfl
  have hr := Reach.of_execWhen hrun
  exact ⟨_, hr, rfl, (fresh_values_returned hr).1⟩

end TpnWorker
