import TpnWorker.Api.Logs

/-! The tail of the log. The ring drops a line only when it holds exactly as many as were asked for, which for none is
    never again the case after the first line. -/

namespace TpnWorker
open Ring

/-- The response has the last lines of the file in order and their number, and the ring holds no more lines than were asked
    for after each line. -/
structure TrueTail (ls : List String) (q : LogQuery) (response : LogResponse) : Prop where
  success : response.success = true
  lines : response.lines = ls.rtake q.limit
  count : response.count = min q.limit ls.length
  ring : ∀ processed, processed <+: ls → (readRing q.limit [] (processed.map .ok)).length ≤ q.limit

section Tail
variable {ls : List String} {q : LogQuery}

theorem limit_eq_zero_iff : q.limit = 0 ↔ q.lines = some 0 := by
  rw [LogQuery.limit, Nat.min_eq_zero_iff]
  cases q.lines with
  | none => exact iff_of_false (by decide) (Option.some_ne_none 0).symm
  | some n => simp [maxLines]

theorem readRing_rtake (h : 0 < q.limit) (ls : List String) : readRing q.limit [] (ls.map .ok) = ls.rtake q.limit := by
  rw [readRing_ok, foldl_push h]

/-- The endpoint returns the true tail of the log exactly if at least one line is asked for or the log is empty. -/
theorem log_tail_iff (ls : List String) (q : LogQuery) :
    TrueTail ls q (getLogs (.ok (ls.map .ok)) q) ↔ q.lines ≠ some 0 ∨ ls = [] := by
  by_cases hzero : q.lines = some 0
  · have hlimit := limit_eq_zero_iff.mpr hzero
    rw [or_iff_right (not_not.mpr hzero)]
    constructor
    · rintro ⟨-, hlines, -, -⟩
      have hall : (getLogs (.ok (ls.map .ok)) q).lines = ls := by
        rw [getLogs, hlimit, readRing_ok, foldl_push_zero]
      rw [hall, hlimit, List.rtake_zero] at hlines
      exact hlines
    · rintro rfl
      refine ⟨rfl, (List.rtake_nil ..).symm, ?_, fun processed hprefix => ?_⟩
      · rw [List.length_nil, Nat.min_zero]
        rfl
      · rw [List.prefix_nil.mp hprefix]
        exact Nat.zero_le _
  · have hpos : 0 < q.limit := Nat.pos_of_ne_zero fun h => hzero (limit_eq_zero_iff.mp h)
    refine iff_of_true ⟨rfl, ?_, ?_, fun processed hprefix => ?_⟩ (Or.inl hzero)
    · exact readRing_rtake hpos ls
    · exact (congrArg List.length (readRing_rtake hpos ls)).trans (length_rtake _ _)
    · rw [readRing_rtake hpos, length_rtake]
      exact min_le_left _ _

end Tail

/-- No line is asked for, and all are returned. -/
theorem whole_log_returned :
    (getLogs (.ok (["first", "second"].map .ok)) ⟨some 0⟩).lines = ["first", "second"] ∧
      ¬TrueTail ["first", "second"] ⟨some 0⟩ (getLogs (.ok (["first", "second"].map .ok)) ⟨some 0⟩) := by
  refine ⟨by decide, fun h => ?_⟩
  have hlines := h.lines
  exact absurd hlines (by decide)

end TpnWorker
