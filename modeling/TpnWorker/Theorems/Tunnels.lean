import TpnWorker.Lib.Transition
import TpnWorker.Proxy.Relay

/-! What a tunnel has relayed when it ends. The copy that ends the relay has relayed all its bytes; the other one is
    cut off wherever it stands. -/

namespace TpnWorker
open Transition

/-- Both directions were relayed until their own end of stream. -/
def Relay.Faithful (s : Relay) : Prop := ∀ d, (s.flow d).closed = true ∧ (s.flow d).received = (s.flow d).sent

/-- A copy ends the relay only if the other direction is at its end too. -/
def LastToEnd (s : Relay) (a : RelayAct) : Prop := ∀ d, a = .finish d → (s.flow d.other).Spent

section Tunnel
variable {s : Relay} {d : RelayCopy}

/-- A relay that has ended was faithful exactly if the copy that ended it was the last one to reach its end. -/
theorem relayed_in_full_iff (hr : Reach Relay.step (fun _ _ => True) .start s) :
    (s.finished ≠ none → s.Faithful) ↔ Reach Relay.step LastToEnd .start s := by
  constructor
  · intro hfaithful
    induction hr with
    | refl => exact .refl
    | step a _ _ hs ih =>
      obtain ⟨hopen, hcase⟩ := Relay.step_cases hs
      refine (ih fun h => absurd hopen h).step a ?_ hs
      rintro d rfl
      rcases hcase with ⟨-, hno⟩ | ⟨d', hd, -, rfl⟩
      · exact absurd rfl (hno d)
      · exact Conduit.spent_iff.mpr (hfaithful (Option.some_ne_none d') d.other)
  · intro hlast hend
    cases hlast with
    | refl => exact absurd rfl hend
    | step a _ hc hs =>
      obtain ⟨-, ⟨hopen, -⟩ | ⟨d, rfl, hspent, rfl⟩⟩ := Relay.step_cases hs
      · exact absurd hopen hend
      · intro e
        rcases d.eq_or_eq_other e with rfl | rfl
        · exact Conduit.spent_iff.mp hspent
        · exact Conduit.spent_iff.mp (hc d rfl)

end Tunnel

/-- A copy moves what its sender sent: it arrives, is read and is written. -/
def relayBytes (d : RelayCopy) (bytes : List UInt8) : List RelayAct :=
  [.send d bytes, .arrive d bytes.length, .read d bytes.length, .write d bytes.length]

/-- The client sends a request and closes its side; the answer has arrived at the relay when the copy of the
    request finishes. -/
def halfClosed : List RelayAct :=
  relayBytes .c2t [71, 69, 84] ++ [.close .c2t, .send .t2c [79, 75], .arrive .t2c 2, .finish .c2t]

/-- The client closes its side, and the target has sent an answer that the client never receives. -/
theorem half_close_cuts_answer :
    ∃ s, Reach Relay.step (fun _ _ => True) .start s ∧ s.finished = some .c2t ∧ (s.flow .t2c).sent = [79, 75] ∧
      (s.flow .t2c).received = [] ∧ ¬s.Faithful := by
  have hrun : (exec Relay.step .start halfClosed).any fun s => decide
      (s.finished = some .c2t ∧ (s.flow .t2c).sent = [79, 75] ∧ (s.flow .t2c).received = []) := by
    decide +kernel
  obtain ⟨s, hs, hfacts⟩ := (Option.any_eq_true _ _).mp hrun
  obtain ⟨hend, hsent, hreceived⟩ := of_decide_eq_true hfacts
  refine ⟨s, Reach.of_exec (fun _ _ => trivial) hs, hend, hsent, hreceived, fun h => ?_⟩
  cases hreceived.symm.trans ((h .t2c).2.trans hsent)

/-- The answer is relayed and the target closes before the copy of the request finishes. -/
def answeredFirst : List RelayAct :=
  relayBytes .c2t [71, 69, 84] ++ relayBytes .t2c [79, 75] ++ [.close .t2c, .close .c2t, .finish .c2t]

theorem relayed_in_full_iff_sample :
    ∃ s : Relay, s.finished = some .c2t ∧ (s.flow .t2c).received = [79, 75] ∧
      ((s.finished ≠ none → s.Faithful) ↔ Reach Relay.step LastToEnd .start s) := by
  have hrun : (exec Relay.step .start answeredFirst).any fun s => decide
      (s.finished = some .c2t ∧ (s.flow .t2c).received = [79, 75]) := by
    decide +kernel
  obtain ⟨s, hs, hfacts⟩ := (Option.any_eq_true _ _).mp hrun
  obtain ⟨hend, hreceived⟩ := of_decide_eq_true hfacts
  exact ⟨s, hend, hreceived, relayed_in_full_iff (Reach.of_exec (fun _ _ => trivial) hs)⟩

end TpnWorker
