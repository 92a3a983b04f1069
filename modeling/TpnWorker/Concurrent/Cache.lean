import TpnWorker.Lib.Transition
import TpnWorker.Service.Cache

/-! Concurrent calls on the cache (`src/service/cache.rs`). Every operation on the map and every reading of the clock is one
    step, and the steps of other calls may come in between. The read guard that `get` holds from its lookup to its clock
    reading is left out, so other calls may write the key there too. History variables have what was last set under a key
    and not removed by a caller, and the answers of `get`; no step reads them. -/

namespace TpnWorker
open Transition

/-- Where a call stands, by what it does next. A `get` keeps what was due at its lookup, for its answer in the history. -/
inductive CachePc where
  | reading (key : String) (entry : CacheEntry) (due : Option CacheEntry)
  | dropping (key : String)
  | inserting (key : String) (entry : CacheEntry)
  | retaining (now : Int)
  | finished

/-- A call of `get`: what was due at its lookup, the clock when its answer was settled, and the answer. -/
structure CacheAnswer where
  key : String
  due : Option CacheEntry
  now : Int
  value : Option Json

structure CacheSys where
  clock : Int
  cache : TtlCache
  calls : ℕ → Option CachePc
  due : String → Option CacheEntry
  answers : List CacheAnswer

inductive CacheAct where
  | tick (now : Int)
  | lookup (call : ℕ) (key : String)
  | read (call : ℕ)
  | drop (call : ℕ)
  | prepare (call : ℕ) (key : String) (value : Json) (ttl : Option Int)
  | insert (call : ℕ)
  | remove (key : String)
  | readEvict (call : ℕ)
  | retain (call : ℕ)

namespace CacheSys

/-- No call has started, and what is in the cache is due. -/
def start (clock : Int) (cache : TtlCache) : CacheSys := ⟨clock, cache, fun _ => none, cache, []⟩

def goto (s : CacheSys) (call : ℕ) (pc : CachePc) : CacheSys :=
  { s with calls := Function.update s.calls call (some pc) }

def answer (s : CacheSys) (key : String) (due : Option CacheEntry) (value : Option Json) : CacheSys :=
  { s with answers := ⟨key, due, s.clock, value⟩ :: s.answers }

/-- One step of a call. A `get` is `lookup`, `read` and `drop`, a `set` is `prepare` and `insert`, and an `evict_expired` is
    `readEvict` and `retain`. -/
def step (s : CacheSys) : CacheAct → Option CacheSys
  | .tick now => if s.clock ≤ now then some { s with clock := now } else none
  | .lookup call key =>
    match s.calls call with
    | none =>
      match s.cache key with
      | none => some ((s.goto call .finished).answer key (s.due key) none)
      | some entry => some (s.goto call (.reading key entry (s.due key)))
    | some _ => none
  | .read call =>
    match s.calls call with
    | some (.reading key entry due) =>
      if entry.expiresAt.any fun expiresAt => decide (expiresAt < s.clock) then
        some ((s.goto call (.dropping key)).answer key due none)
      else some ((s.goto call .finished).answer key due (some entry.value))
    | _ => none
  | .drop call =>
    match s.calls call with
    | some (.dropping key) => some { s.goto call .finished with cache := s.cache.remove key }
    | _ => none
  | .prepare call key value ttl =>
    match s.calls call with
    | none => some (s.goto call (.inserting key ⟨value, ttl.map (s.clock + ·)⟩))
    | some _ => none
  | .insert call =>
    match s.calls call with
    | some (.inserting key entry) =>
      some { s.goto call .finished with
        cache := Function.update s.cache key (some entry), due := Function.update s.due key (some entry) }
    | _ => none
  | .remove key => some { s with cache := s.cache.remove key, due := Function.update s.due key none }
  | .readEvict call =>
    match s.calls call with
    | none => some (s.goto call (.retaining s.clock))
    | some _ => none
  | .retain call =>
    match s.calls call with
    | some (.retaining now) => some { s.goto call .finished with cache := s.cache.evictExpired now }
    | _ => none

/-- The key that the call is about to remove because what it looked up had expired. -/
def dropped (s : CacheSys) (call : ℕ) : Option String :=
  match s.calls call with
  | some (.dropping key) => some key
  | _ => none

end CacheSys

namespace CacheStep
variable {s t : CacheSys} {call : ℕ} {key : String}

theorem tick_inv {now : Int} (h : s.step (.tick now) = some t) : s.clock ≤ now ∧ t = { s with clock := now } := by
  simp only [CacheSys.step] at h
  split at h
  · next hle => exact ⟨hle, (Option.some.inj h).symm⟩
  · cases h

theorem lookup_of_miss (hcall : s.calls call = none) (hmiss : s.cache key = none) :
    s.step (.lookup call key) = some ((s.goto call .finished).answer key (s.due key) none) := by
  simp only [CacheSys.step, hcall, hmiss]

theorem lookup_inv (h : s.step (.lookup call key) = some t) :
    s.cache key = none ∧ t = (s.goto call .finished).answer key (s.due key) none ∨
      ∃ entry, s.cache key = some entry ∧ t = s.goto call (.reading key entry (s.due key)) := by
  simp only [CacheSys.step] at h
  split at h
  · split at h
    · next hmiss => exact Or.inl ⟨hmiss, (Option.some.inj h).symm⟩
    · next entry hentry => exact Or.inr ⟨entry, hentry, (Option.some.inj h).symm⟩
  · cases h

theorem read_inv (h : s.step (.read call) = some t) :
    ∃ key entry due, s.calls call = some (.reading key entry due) ∧
      (¬entry.Fresh s.clock ∧ t = (s.goto call (.dropping key)).answer key due none ∨
        entry.Fresh s.clock ∧ t = (s.goto call .finished).answer key due (some entry.value)) := by
  simp only [CacheSys.step] at h
  split at h
  · next key entry due hcall =>
    refine ⟨key, entry, due, hcall, ?_⟩
    split at h
    · next hexpired => exact Or.inl ⟨CacheEntry.expired_iff.mp hexpired, (Option.some.inj h).symm⟩
    · next hfresh => exact Or.inr ⟨not_not.mp (mt CacheEntry.expired_iff.mpr hfresh), (Option.some.inj h).symm⟩
  · cases h

theorem drop_inv (h : s.step (.drop call) = some t) :
    ∃ key, s.dropped call = some key ∧ t = { s.goto call .finished with cache := s.cache.remove key } := by
  simp only [CacheSys.step] at h
  split at h
  · next key hcall => exact ⟨key, by rw [CacheSys.dropped, hcall], (Option.some.inj h).symm⟩
  · cases h

theorem prepare_inv {value : Json} {ttl : Option Int} (h : s.step (.prepare call key value ttl) = some t) :
    t = s.goto call (.inserting key ⟨value, ttl.map (s.clock + ·)⟩) := by
  simp only [CacheSys.step] at h
  split at h
  · exact (Option.some.inj h).symm
  · cases h

theorem insert_inv (h : s.step (.insert call) = some t) :
    ∃ key entry, t = { s.goto call .finished with
      cache := Function.update s.cache key (some entry), due := Function.update s.due key (some entry) } := by
  simp only [CacheSys.step] at h
  split at h
  · next key entry hcall => exact ⟨key, entry, (Option.some.inj h).symm⟩
  · cases h

theorem readEvict_inv (h : s.step (.readEvict call) = some t) : t = s.goto call (.retaining s.clock) := by
  simp only [CacheSys.step] at h
  split at h
  · exact (Option.some.inj h).symm
  · cases h

theorem retain_inv (h : s.step (.retain call) = some t) :
    ∃ now, s.calls call = some (.retaining now) ∧
      t = { s.goto call .finished with cache := s.cache.evictExpired now } := by
  simp only [CacheSys.step] at h
  split at h
  · next now hcall => exact ⟨now, hcall, (Option.some.inj h).symm⟩
  · cases h

end CacheStep

/-! Calls whose steps follow each other do what the functions do. -/

section Calls
variable {s : CacheSys} {call : ℕ}

theorem exec_get (key : String) (hcall : s.calls call = none) :
    ∃ as, (exec CacheSys.step s as).map (fun t => (t.cache, t.answers)) = some ((s.cache.get s.clock key).2,
      ⟨key, s.due key, s.clock, (s.cache.get s.clock key).1⟩ :: s.answers) := by
  cases hentry : s.cache key with
  | none =>
    refine ⟨[.lookup call key], ?_⟩
    simp [exec, CacheSys.step, TtlCache.get, hcall, hentry, CacheSys.answer, CacheSys.goto]
  | some entry =>
    by_cases hexpired : (entry.expiresAt.any fun expiresAt => decide (expiresAt < s.clock)) = true
    · refine ⟨[.lookup call key, .read call, .drop call], ?_⟩
      simp [exec, CacheSys.step, TtlCache.get, hcall, hentry, CacheSys.answer, CacheSys.goto, hexpired, TtlCache.remove]
    · refine ⟨[.lookup call key, .read call], ?_⟩
      simp [exec, CacheSys.step, TtlCache.get, hcall, hentry, CacheSys.answer, CacheSys.goto, hexpired]

theorem exec_set (key : String) (value : Json) (ttl : Option Int) (hcall : s.calls call = none) :
    (exec CacheSys.step s [.prepare call key value ttl, .insert call]).map (·.cache) =
      some (s.cache.set s.clock key value ttl) := by
  simp [exec, CacheSys.step, CacheSys.goto, TtlCache.set, hcall]

theorem exec_evictExpired (hcall : s.calls call = none) :
    (exec CacheSys.step s [.readEvict call, .retain call]).map (·.cache) = some (s.cache.evictExpired s.clock) := by
  simp [exec, CacheSys.step, CacheSys.goto, hcall]

end Calls

end TpnWorker
