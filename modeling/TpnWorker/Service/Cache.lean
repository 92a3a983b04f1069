import Mathlib.Logic.Function.Basic
import TpnWorker.Wireguard.Server

/-! The cache with expiries (`src/service/cache.rs`). -/

namespace TpnWorker

structure CacheEntry where
  value : Json
  expiresAt : Option Int

abbrev TtlCache := String → Option CacheEntry

namespace TtlCache

def new : TtlCache := fun _ => none

/-- Get a cached value at the instant `now`. An expired one is removed. -/
def get (cache : TtlCache) (now : Int) (key : String) : Option Json × TtlCache :=
  match cache key with
  | none => (none, cache)
  | some entry =>
    if entry.expiresAt.any fun expiresAt => decide (expiresAt < now) then (none, Function.update cache key none)
    else (some entry.value, cache)

/-- Get a cached string value. -/
def getString (cache : TtlCache) (now : Int) (key : String) : Option String × TtlCache :=
  match cache.get now key with
  | (some (.str text), cache) => (some text, cache)
  | (_, cache) => (none, cache)

/-- Set a value with an optional time to live. -/
def set (cache : TtlCache) (now : Int) (key : String) (value : Json) (ttl : Option Int) : TtlCache :=
  Function.update cache key (some ⟨value, ttl.map (now + ·)⟩)

/-- Set a string value with an optional time to live. -/
def setString (cache : TtlCache) (now : Int) (key value : String) (ttl : Option Int) : TtlCache :=
  Function.update cache key (some ⟨.str value, ttl.map (now + ·)⟩)

/-- Remove a key. -/
def remove (cache : TtlCache) (key : String) : TtlCache := Function.update cache key none

/-- Evict all entries that have expired at the instant `now`. -/
def evictExpired (cache : TtlCache) (now : Int) : TtlCache := fun key =>
  (cache key).filter fun entry => entry.expiresAt.all fun exp => decide (now ≤ exp)

end TtlCache

/-- The lifetime of the entry has not ended at the instant `now`. -/
def CacheEntry.Fresh (entry : CacheEntry) (now : Int) : Prop := ∀ expiresAt ∈ entry.expiresAt, now ≤ expiresAt

namespace CacheEntry
variable {entry : CacheEntry} {now later : Int}

instance : Decidable (entry.Fresh now) := inferInstanceAs (Decidable (∀ expiresAt ∈ entry.expiresAt, now ≤ expiresAt))

theorem Fresh.mono (h : entry.Fresh later) (hle : now ≤ later) : entry.Fresh now := fun expiresAt hmem =>
  hle.trans (h expiresAt hmem)

/-- The check of `get`. -/
theorem expired_iff : (entry.expiresAt.any fun expiresAt => decide (expiresAt < now)) = true ↔ ¬entry.Fresh now := by
  simp [Fresh, Option.any_eq_true]

/-- The check of `evict_expired`. -/
theorem retained_iff : (entry.expiresAt.all fun exp => decide (now ≤ exp)) = true ↔ entry.Fresh now := by
  simp [Fresh, Option.all_eq_true]

end CacheEntry

end TpnWorker
