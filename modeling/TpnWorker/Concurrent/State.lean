import TpnWorker.Lib.Update
import TpnWorker.Node

/-! A worker whose WireGuard operations run concurrently. The state holds the three stores, the clock, the
    named lock, and where each `allocate_peer` call and each cleanup pass stands. Three history variables
    record which call's INSERT made a row, which lease each call was granted and which public keys were
    drawn; no step reads them. -/

namespace TpnWorker
open Keyed

/-- Where an `allocate_peer` call stands, by what it does next. -/
inductive Pc where
  | acquiring
  | selecting
  | purging
  | reselecting
  | inserting (peerId : Int)
  | configuring (peerId : Int)
  | mapping (peerId : Int) (state : PeerState)
  | storing (peerId : Int) (state : PeerState)
  | unmapping (peerId : Int) (error : AppError)
  | unconfiguring (peerId : Int) (taken : PeerState) (error : AppError)
  | freeing (peerId : Int) (error : AppError)
  | allocated (peerId : Int) (state : PeerState)
  | failed (error : AppError)
deriving DecidableEq

namespace Pc

/-- The call holds the named lock. -/
def Locked : Pc → Prop
  | selecting | purging | reselecting | inserting _ => True
  | _ => False

/-- The call has not been granted a peer id, and may still be. -/
def Ungranted : Pc → Prop
  | acquiring | selecting | purging | reselecting | inserting _ => True
  | _ => False

/-- The granted peer id of a call that has not failed. -/
def peerId? : Pc → Option Int
  | configuring id | mapping id _ | storing id _ | unmapping id _ | unconfiguring id _ _ | freeing id _
  | allocated id _ => some id
  | _ => none

/-- The peer whose key the call has configured. -/
def state? : Pc → Option PeerState
  | mapping _ st | storing _ st | allocated _ st => some st
  | _ => none

/-- The peer that the call has entered in the map. -/
def mapped? : Pc → Option PeerState
  | storing _ st | allocated _ st => some st
  | _ => none

/-- The peer id whose row the call is about to free. -/
def freeing? : Pc → Option Int
  | freeing id _ => some id
  | _ => none

/-- The call rolls back. -/
def Rollback : Pc → Prop
  | unmapping .. | unconfiguring .. | freeing .. => True
  | _ => False

def Finished : Pc → Prop
  | allocated .. | failed _ => True
  | _ => False

instance : DecidablePred Finished
  | allocated .. | failed _ => inferInstanceAs (Decidable True)
  | acquiring | selecting | purging | reselecting | inserting _ | configuring _ | mapping .. | storing ..
  | unmapping .. | unconfiguring .. | freeing .. => inferInstanceAs (Decidable False)

theorem not_finished_of_locked {pc : Pc} (h : pc.Locked) : ¬pc.Finished := by
  cases pc <;> first | exact not_false | exact h.elim

theorem views_of_locked {pc : Pc} (h : pc.Locked) : pc.peerId? = none ∧ pc.state? = none ∧ pc.mapped? = none := by
  cases pc <;> first | exact ⟨rfl, rfl, rfl⟩ | exact h.elim

theorem freeing?_eq_some {pc : Pc} {id : Int} (h : pc.freeing? = some id) : pc.peerId? = some id ∧ ¬pc.Finished := by
  cases pc with
  | freeing id' error => exact ⟨h, not_false⟩
  | _ => cases h

end Pc

/-- An `allocate_peer` call with the expiry that it asks for. -/
structure Call where
  expiresAt : Int
  pc : Pc
deriving DecidableEq

/-- Where a cleanup pass stands, by what it does next. -/
inductive PassPc where
  | querying
  | removing (id : Int) (rest : List Int)
  | unconfiguring (id : Int) (taken : PeerState) (rest : List Int)
  | deleting
  | finished
deriving DecidableEq

/-- A cleanup pass with the clock reading at its start. -/
structure Pass where
  cutoff : Int
  pc : PassPc
deriving DecidableEq

/-- The removal loop, with these ids left. -/
def PassPc.remaining : List Int → PassPc
  | [] => .deleting
  | id :: rest => .removing id rest

/-- The ids that the loop has yet to remove from the map. -/
def PassPc.listed : PassPc → List Int
  | removing id rest => id :: rest
  | unconfiguring _ _ rest => rest
  | _ => []

/-- The id whose map entry the loop takes out next. -/
def PassPc.removing? : PassPc → Option Int
  | removing id _ => some id
  | _ => none

/-- The peer that the pass has taken out of the map and not yet removed from the interface. -/
def PassPc.taken? : PassPc → Option PeerState
  | unconfiguring _ taken _ => some taken
  | _ => none

@[simp] theorem PassPc.listed_remaining (ids : List Int) : (PassPc.remaining ids).listed = ids := by
  cases ids <;> rfl

@[simp] theorem PassPc.taken?_remaining (ids : List Int) : (PassPc.remaining ids).taken? = none := by
  cases ids <;> rfl

/-- A granted lease: its peer id, the expiry that its call or its last extension gave it, and whether its own
    call rolled it back. -/
structure Lease where
  peerId : Int
  expiresAt : Int
  rolledBack : Bool
deriving DecidableEq

structure Sys extends WgState where
  clock : Int
  lock : Option ℕ
  calls : ℕ → Option Call
  passes : ℕ → Option Pass
  holder : Int → Option ℕ
  leases : ℕ → Option Lease
  drawn : List Key

namespace Sys

/-- A server that was just created, with an empty table and no operation under way. -/
def fresh (clock : Int) : Sys :=
  ⟨.fresh, clock, none, fun _ => none, fun _ => none, fun _ => none, fun _ => none, []⟩

/-- Call `c`, which asks for the expiry `e`, moves on. -/
def goto (s : Sys) (c : ℕ) (e : Int) (pc : Pc) : Sys := { s with calls := Function.update s.calls c (some ⟨e, pc⟩) }

/-- Pass `p` moves on. -/
def passTo (s : Sys) (p : ℕ) (cutoff : Int) (pc : PassPc) : Sys :=
  { s with passes := Function.update s.passes p (some ⟨cutoff, pc⟩) }

/-- The lease of call `c` starts: its row is under `id`. -/
def grant (s : Sys) (c : ℕ) (id e : Int) : Sys :=
  { s with holder := Function.update s.holder id (some c)
           leases := Function.update s.leases c (some ⟨id, e, false⟩) }

/-- The lease that holds the row under `id` gets a new expiry. -/
def prolong (s : Sys) (id new : Int) : Sys :=
  { s with leases := fun c => (s.leases c).map fun l =>
      if s.holder id = some c then { l with expiresAt := new } else l }

/-- The row under `id` carries the expiry `e`. -/
def RowExpires (s : Sys) (id e : Int) : Prop := (s.table.get? id).any (fun r => decide (r.expiresAt = e)) = true

instance (s : Sys) (id e : Int) : Decidable (s.RowExpires id e) := inferInstanceAs (Decidable (_ = true))

/-- The rollback of call `c` deletes the row under `id` if it carries the expiry `e`; if the row is its own,
    its lease ends. -/
def rollBack (s : Sys) (c : ℕ) (id e : Int) : Sys :=
  { s with leases := fun c' => (s.leases c').map fun l =>
      if c' = c ∧ s.holder id = some c ∧ s.RowExpires id e then { l with rolledBack := true } else l }

/-! ### Views of the calls and passes -/

def peerId? (s : Sys) (c : ℕ) : Option Int := (s.calls c).bind (·.pc.peerId?)

def state? (s : Sys) (c : ℕ) : Option PeerState := (s.calls c).bind (·.pc.state?)

def mapped? (s : Sys) (c : ℕ) : Option PeerState := (s.calls c).bind (·.pc.mapped?)

def taken? (s : Sys) (p : ℕ) : Option PeerState := (s.passes p).bind (·.pc.taken?)

def Listed (s : Sys) (p : ℕ) (id : Int) : Prop := ∃ pass, s.passes p = some pass ∧ id ∈ pass.pc.listed

/-- The key of a peer is configured on the interface. -/
def Configured (s : Sys) (st : PeerState) : Prop := ∀ key, st.publicKey = encodeKey key → (s.iface key).isSome

section Views
variable {s : Sys} {c p : ℕ} {e cutoff : Int} {pc : Pc} {ppc : PassPc}

theorem peerId?_eq (h : s.calls c = some ⟨e, pc⟩) : s.peerId? c = pc.peerId? := by rw [peerId?, h, Option.bind_some]

theorem state?_eq (h : s.calls c = some ⟨e, pc⟩) : s.state? c = pc.state? := by rw [state?, h, Option.bind_some]

theorem mapped?_eq (h : s.calls c = some ⟨e, pc⟩) : s.mapped? c = pc.mapped? := by rw [mapped?, h, Option.bind_some]

theorem taken?_eq (h : s.passes p = some ⟨cutoff, ppc⟩) : s.taken? p = ppc.taken? := by
  rw [taken?, h, Option.bind_some]

end Views

theorem peerId?_goto (s : Sys) (c : ℕ) (e : Int) (pc : Pc) :
    (s.goto c e pc).peerId? = Function.update s.peerId? c pc.peerId? := by
  funext c'
  simp only [peerId?, goto, Function.update_apply]
  split <;> rfl

theorem state?_goto (s : Sys) (c : ℕ) (e : Int) (pc : Pc) :
    (s.goto c e pc).state? = Function.update s.state? c pc.state? := by
  funext c'
  simp only [state?, goto, Function.update_apply]
  split <;> rfl

theorem mapped?_goto (s : Sys) (c : ℕ) (e : Int) (pc : Pc) :
    (s.goto c e pc).mapped? = Function.update s.mapped? c pc.mapped? := by
  funext c'
  simp only [mapped?, goto, Function.update_apply]
  split <;> rfl

section Unchanged
variable {s : Sys} {c p : ℕ} {e cutoff : Int} {pc : Pc} {ppc : PassPc}

theorem peerId?_goto_self (h : s.peerId? c = pc.peerId?) : (s.goto c e pc).peerId? = s.peerId? := by
  rw [peerId?_goto, ← h, Function.update_eq_self]

theorem state?_goto_self (h : s.state? c = pc.state?) : (s.goto c e pc).state? = s.state? := by
  rw [state?_goto, ← h, Function.update_eq_self]

theorem mapped?_goto_self (h : s.mapped? c = pc.mapped?) : (s.goto c e pc).mapped? = s.mapped? := by
  rw [mapped?_goto, ← h, Function.update_eq_self]

end Unchanged

theorem taken?_passTo (s : Sys) (p : ℕ) (cutoff : Int) (pc : PassPc) :
    (s.passTo p cutoff pc).taken? = Function.update s.taken? p pc.taken? := by
  funext p'
  simp only [taken?, passTo, Function.update_apply]
  split <;> rfl

theorem listed_passTo {s : Sys} {p p' : ℕ} {cutoff : Int} {pc : PassPc} {id : Int}
    (h : (s.passTo p cutoff pc).Listed p' id) : p' = p ∧ id ∈ pc.listed ∨ s.Listed p' id := by
  obtain ⟨pass, hpass, hid⟩ := h
  rcases Function.update_some_cases hpass with ⟨hp, heq⟩ | ⟨hp, hpass⟩
  · subst hp
    cases heq
    exact Or.inl ⟨rfl, hid⟩
  · exact Or.inr ⟨pass, hpass, hid⟩

theorem state?_of_mapped? {s : Sys} {c : ℕ} {st : PeerState} (h : s.mapped? c = some st) : s.state? c = some st := by
  obtain ⟨call, hc, hst⟩ := Option.bind_eq_some_iff.mp h
  rw [state?, hc]
  cases hpc : call.pc with
  | storing id st' =>
    rw [hpc] at hst
    rw [Option.bind_some, hpc]
    exact hst
  | allocated id st' =>
    rw [hpc] at hst
    rw [Option.bind_some, hpc]
    exact hst
  | _ =>
    rw [hpc] at hst
    cases hst

theorem rowExpires_iff {s : Sys} {id e : Int} :
    s.RowExpires id e ↔ ∃ r, s.table.get? id = some r ∧ r.expiresAt = e := by
  simp [RowExpires, Option.any_eq_true]

end Sys

end TpnWorker
