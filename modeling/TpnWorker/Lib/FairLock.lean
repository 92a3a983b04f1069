import Mathlib.Data.List.Nodup

/-! A fair lock by the queue of its clients: the first one holds it, and the others wait in the order in which they came.
    Leaving is one operation for the holder, who releases the lock, and for a waiter, who gives up. That the lock is handed
    over in this order, and that a client leaves when its guard or its wait is dropped, is what the mutex is assumed to do. -/

namespace FairLock
variable {α : Type} {q : List α} {a b c : α}

/-- The client holds the lock. -/
def Holds (q : List α) (a : α) : Prop := q.head? = some a

/-- The client `a` came before the client `b`, and neither has left. -/
def Ahead (q : List α) (a b : α) : Prop := [a, b].Sublist q

def arrive (q : List α) (a : α) : List α := q ++ [a]

theorem Holds.unique (ha : Holds q a) (hb : Holds q b) : a = b := Option.some.inj (ha.symm.trans hb)

theorem Holds.mem (h : Holds q a) : a ∈ q := List.mem_of_head? h

/-- A lock that has a client is held. -/
theorem exists_holds (h : a ∈ q) : ∃ b, Holds q b := by
  cases q with
  | nil => cases h
  | cons b q => exact ⟨b, rfl⟩

@[simp] theorem mem_arrive : b ∈ arrive q a ↔ b ∈ q ∨ b = a := by simp [arrive]

theorem nodup_arrive (hq : q.Nodup) (ha : a ∉ q) : (arrive q a).Nodup := by
  unfold arrive
  rw [← List.concat_eq_append]
  exact hq.concat ha

theorem Holds.arrive (h : Holds q a) (b : α) : Holds (arrive q b) a := by
  unfold Holds FairLock.arrive at *
  rw [List.head?_append, h, Option.some_or]

theorem Ahead.arrive (h : Ahead q a b) (c : α) : Ahead (arrive q c) a b := h.trans (List.sublist_append_left q [c])

/-- A client that comes stands behind all the others. -/
theorem ahead_arrive (ha : a ∈ q) (b : α) : Ahead (arrive q b) a b :=
  (List.singleton_sublist.mpr ha).append (List.Sublist.refl [b])

/-- Nobody holds the lock who has a client before him. -/
theorem Ahead.not_holds (h : Ahead q a b) (hq : q.Nodup) : ¬Holds q b := by
  intro hb
  cases q with
  | nil => cases hb
  | cons x q =>
    cases hb
    rcases List.sublist_cons_iff.mp h with h | ⟨r, hr, hsub⟩
    · exact (List.nodup_cons.mp hq).1 (h.subset (by simp))
    · obtain ⟨rfl, rfl⟩ := List.cons.inj hr
      exact (List.nodup_cons.mp hq).1 (hsub.subset (by simp))

section Leaving
variable [DecidableEq α]

def leave (q : List α) (a : α) : List α := q.erase a

@[simp] theorem mem_leave (hq : q.Nodup) : b ∈ leave q a ↔ b ≠ a ∧ b ∈ q := hq.mem_erase_iff

theorem nodup_leave (hq : q.Nodup) : (leave q a).Nodup := hq.erase a

theorem Holds.leave (h : Holds q a) (hb : b ≠ a) : Holds (leave q b) a := by
  cases q with
  | nil => cases h
  | cons x q =>
    cases h
    unfold Holds FairLock.leave
    rw [List.erase_cons_tail (by simpa using Ne.symm hb)]
    rfl

theorem Ahead.leave (h : Ahead q a b) (ha : c ≠ a) (hb : c ≠ b) : Ahead (leave q c) a b := by
  unfold Ahead FairLock.leave at *
  have herase := h.erase c
  rwa [List.erase_of_not_mem (by simp [ha, hb])] at herase

end Leaving

end FairLock
