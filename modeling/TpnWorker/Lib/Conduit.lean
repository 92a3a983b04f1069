import Mathlib.Data.List.Basic

/-! A byte stream that passes through a copying process: sent, on its way, arrived, read into the buffer, and
    written out. Nothing is lost, doubled or reordered on the way. -/

/-- A stream from a sender to a receiver, with everything that was sent. -/
structure Conduit (α : Type) where
  sent : List α
  flight : List α
  arrived : List α
  buffered : List α
  received : List α
  closed : Bool
  conserved : sent = received ++ buffered ++ arrived ++ flight

namespace Conduit
variable {α : Type}

def start : Conduit α := ⟨[], [], [], [], [], false, rfl⟩

/-- The sender sends. -/
def send (f : Conduit α) (xs : List α) : Conduit α :=
  { f with
    sent := f.sent ++ xs
    flight := f.flight ++ xs
    conserved := by rw [f.conserved, List.append_assoc _ f.flight] }

/-- The sender closes its side. -/
def close (f : Conduit α) : Conduit α := { f with closed := true }

/-- The next `n` arrive at the process. -/
def arrive (f : Conduit α) (n : ℕ) : Conduit α :=
  { f with
    flight := f.flight.drop n
    arrived := f.arrived ++ f.flight.take n
    conserved := by
      rw [f.conserved, ← List.append_assoc, List.append_assoc _ (f.flight.take n), List.take_append_drop] }

/-- The process reads the next `n` into its buffer. -/
def read (f : Conduit α) (n : ℕ) : Conduit α :=
  { f with
    arrived := f.arrived.drop n
    buffered := f.buffered ++ f.arrived.take n
    conserved := by
      rw [f.conserved, ← List.append_assoc, List.append_assoc _ (f.arrived.take n), List.take_append_drop] }

/-- The process writes the next `n` of its buffer to the receiver. -/
def write (f : Conduit α) (n : ℕ) : Conduit α :=
  { f with
    buffered := f.buffered.drop n
    received := f.received ++ f.buffered.take n
    conserved := by
      rw [f.conserved, List.append_assoc _ (f.buffered.take n), List.take_append_drop] }

/-- The sender has closed, and nothing is left on the way: a reader finds the end of the stream. -/
def Spent (f : Conduit α) : Prop := f.closed = true ∧ f.flight = [] ∧ f.arrived = [] ∧ f.buffered = []

instance [DecidableEq α] (f : Conduit α) : Decidable f.Spent := inferInstanceAs (Decidable (_ ∧ _ ∧ _ ∧ _))

variable {f : Conduit α}

/-- All that was sent is received if nothing is left on the way. -/
theorem received_eq_sent_iff : f.received = f.sent ↔ f.flight = [] ∧ f.arrived = [] ∧ f.buffered = [] := by
  rw [f.conserved, List.append_assoc, List.append_assoc, List.self_eq_append_right, List.append_eq_nil_iff,
    List.append_eq_nil_iff]
  exact ⟨fun ⟨h₁, h₂, h₃⟩ => ⟨h₃, h₂, h₁⟩, fun ⟨h₁, h₂, h₃⟩ => ⟨h₃, h₂, h₁⟩⟩

/-- A stream is spent when it is closed and received in full. -/
theorem spent_iff : f.Spent ↔ f.closed = true ∧ f.received = f.sent :=
  and_congr_right fun _ => received_eq_sent_iff.symm

end Conduit
