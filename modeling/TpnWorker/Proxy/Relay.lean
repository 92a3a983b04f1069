import Mathlib.Logic.Function.Basic
import TpnWorker.Lib.Conduit

/-! The relay of a tunnel, the same in both proxies (`src/proxy/socks5.rs`, `src/proxy/http_connect.rs`): a copy in
    each direction, under a `select!` that the first of them to finish ends. No read and no write fails. -/

namespace TpnWorker

/-- The two copies, client to target and target to client. -/
inductive RelayCopy where
  | c2t
  | t2c
deriving DecidableEq

def RelayCopy.other : RelayCopy → RelayCopy
  | c2t => t2c
  | t2c => c2t

theorem RelayCopy.eq_or_eq_other (d e : RelayCopy) : e = d ∨ e = d.other := by
  cases d <;> cases e <;> decide

/-- A tunnel: the bytes of both directions, and the copy that has ended the relay. -/
structure Relay where
  flow : RelayCopy → Conduit UInt8
  finished : Option RelayCopy

/-- What happens to one direction: its sender sends or closes, bytes arrive, and its copy reads, writes, or finds
    the end of the stream with its buffer empty. Chunks have any size. -/
inductive RelayAct where
  | send (d : RelayCopy) (bytes : List UInt8)
  | close (d : RelayCopy)
  | arrive (d : RelayCopy) (n : ℕ)
  | read (d : RelayCopy) (n : ℕ)
  | write (d : RelayCopy) (n : ℕ)
  | finish (d : RelayCopy)

namespace Relay

def start : Relay := ⟨fun _ => .start, none⟩

def setFlow (s : Relay) (d : RelayCopy) (f : Conduit UInt8) : Relay := { s with flow := Function.update s.flow d f }

/-- One step. The first copy to finish ends the relay and drops the other copy; the run ends there. -/
def step (s : Relay) (a : RelayAct) : Option Relay :=
  if s.finished = none then
    match a with
    | .send d bytes => if (s.flow d).closed then none else some (s.setFlow d ((s.flow d).send bytes))
    | .close d => some (s.setFlow d (s.flow d).close)
    | .arrive d n => some (s.setFlow d ((s.flow d).arrive n))
    | .read d n => some (s.setFlow d ((s.flow d).read n))
    | .write d n => some (s.setFlow d ((s.flow d).write n))
    | .finish d => if (s.flow d).Spent then some { s with finished := some d } else none
  else none

/-- A step leaves the relay running, or is the end of a copy that has relayed all its bytes. -/
theorem step_cases {s t : Relay} {a : RelayAct} (h : s.step a = some t) :
    s.finished = none ∧
      (t.finished = none ∧ (∀ d, a ≠ .finish d) ∨
        ∃ d, a = .finish d ∧ (s.flow d).Spent ∧ t = { s with finished := some d }) := by
  simp only [step] at h
  split at h
  · next hopen =>
    refine ⟨hopen, ?_⟩
    cases a with
    | send d bytes =>
      simp only at h
      split at h
      · cases h
      · cases h
        exact Or.inl ⟨hopen, fun _ h => by cases h⟩
    | close d | arrive d n | read d n | write d n =>
      cases h
      exact Or.inl ⟨hopen, fun _ h => by cases h⟩
    | finish d =>
      simp only at h
      split at h
      · next hspent =>
        cases h
        exact Or.inr ⟨d, rfl, hspent, rfl⟩
      · cases h
  · cases h

end Relay

end TpnWorker
