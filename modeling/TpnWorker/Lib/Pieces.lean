import Mathlib.Data.List.Infix
import Mathlib.Data.List.TakeWhile

/-! Splitting a text at a separator. -/

namespace Pieces

/-- The text before the first `c`, or the whole text. -/
def firstPiece (c : Char) (text : List Char) : List Char := (text.splitOn c).headD text

/-- The pieces between the occurrences of `sep`, from left to right, after `skip` more characters. -/
def piecesFrom (sep : List Char) : ℕ → List Char → List (List Char)
  | _, [] => [[]]
  | skip + 1, _ :: cs => piecesFrom sep skip cs
  | 0, c :: cs =>
    if sep.isPrefixOf (c :: cs) then [] :: piecesFrom sep (sep.length - 1) cs
    else (piecesFrom sep 0 cs).modifyHead (c :: ·)

/-- Split at a text. -/
def splitAtText (sep text : List Char) : List (List Char) := piecesFrom sep 0 text

/-- `contains` -/
def containsText (sep text : List Char) : Bool := text.tails.any sep.isPrefixOf

theorem containsText_iff {sep text : List Char} : containsText sep text = true ↔ sep <:+: text := by
  rw [containsText, List.any_eq_true, List.infix_iff_prefix_suffix]
  refine exists_congr fun tail => ?_
  rw [List.mem_tails, List.isPrefixOf_iff_prefix]
  exact and_comm

theorem ne_of_not_mem {c : Char} {lead : List Char} (h : c ∉ lead) : ∀ x ∈ lead, decide (x ≠ c) = true :=
  fun _ hx => decide_eq_true fun heq => h (heq ▸ hx)

theorem takeWhile_append_cons {c : Char} {lead : List Char} (h : c ∉ lead) (rest : List Char) :
    (lead ++ c :: rest).takeWhile (fun x => decide (x ≠ c)) = lead := by
  rw [List.takeWhile_append_of_pos (ne_of_not_mem h), List.takeWhile_cons_of_neg (by simp), List.append_nil]

theorem firstPiece_eq (c : Char) (text : List Char) : firstPiece c text = text.takeWhile fun x => decide (x ≠ c) := by
  rw [firstPiece]
  induction text with
  | nil => rfl
  | cons x text ih =>
    rw [List.splitOn_cons_eq_if_modifyHead]
    by_cases hx : x = c
    · rw [if_pos (beq_iff_eq.mpr hx), List.takeWhile_cons_of_neg (by simpa using hx)]
      rfl
    · rw [if_neg (by simpa using hx), List.takeWhile_cons_of_pos (by simpa using hx), ← ih]
      cases hsplit : text.splitOn c with
      | nil => exact absurd hsplit (List.splitOn_ne_nil c text)
      | cons piece pieces => rfl

section Text
variable {c : Char} {sep lead rest text : List Char}

theorem piecesFrom_skip : piecesFrom sep lead.length (lead ++ rest) = piecesFrom sep 0 rest := by
  induction lead with
  | nil => rfl
  | cons x lead ih => exact ih

theorem isPrefixOf_append : sep.isPrefixOf (sep ++ rest) = true := List.isPrefixOf_iff_prefix.mpr (List.prefix_append _ _)

/-- The text before the first separator is the first piece. -/
theorem splitAtText_append (h : c ∉ lead) :
    splitAtText (c :: sep) (lead ++ c :: sep ++ rest) = lead :: splitAtText (c :: sep) rest := by
  rw [splitAtText, splitAtText]
  induction lead with
  | nil =>
    have hprefix : (c :: sep).isPrefixOf (c :: (sep ++ rest)) = true := isPrefixOf_append
    rw [List.nil_append, List.cons_append, piecesFrom, if_pos hprefix]
    exact congrArg ([] :: ·) piecesFrom_skip
  | cons x lead ih =>
    obtain ⟨hx, hlead⟩ := not_or.mp fun hmem => h (List.mem_cons.mpr hmem)
    have hprefix : ¬(c :: sep).isPrefixOf (x :: (lead ++ c :: sep ++ rest)) = true := by
      rw [List.isPrefixOf_iff_prefix, List.cons_prefix_cons]
      exact fun hboth => hx hboth.1
    rw [List.cons_append, List.cons_append, piecesFrom, if_neg hprefix, ih hlead]
    rfl

/-- The first piece is the whole text, or a separator follows it. -/
theorem exists_splitAtText (sep text : List Char) :
    ∃ piece pieces, splitAtText sep text = piece :: pieces ∧ (piece = text ∨ piece ++ sep <+: text) := by
  rw [splitAtText]
  induction text with
  | nil => exact ⟨[], [], rfl, Or.inl rfl⟩
  | cons x text ih =>
    rw [piecesFrom]
    split
    · next hprefix => exact ⟨[], _, rfl, Or.inr (List.isPrefixOf_iff_prefix.mp hprefix)⟩
    · obtain ⟨piece, pieces, hpieces, hpiece⟩ := ih
      refine ⟨x :: piece, pieces, by rw [hpieces]; rfl, ?_⟩
      rcases hpiece with rfl | hpiece
      · exact Or.inl rfl
      · exact Or.inr (List.cons_prefix_cons.mpr ⟨rfl, hpiece⟩)

end Text

end Pieces
