import Mathlib.Data.List.Infix

/-! The lines of a text. A line ends with a line feed, which a carriage return may precede; the line ending of the
    last line is optional. -/

namespace Lines

variable {α β : Type}

/-- The line without a carriage return at its end. -/
def stripCr (line : List Char) : List Char := if line.getLast? = some '\r' then line.dropLast else line

def lines (text : List Char) : List (List Char) :=
  let pieces := text.splitOn '\n'
  pieces.dropLast.map stripCr ++ pieces.getLast?.toList.filter fun last => decide (last ≠ [])

/-- The lines joined by line feeds. -/
def join (ls : List (List Char)) : List Char := ['\n'].intercalate ls

theorem not_mem_of_mem_splitOn [BEq α] [LawfulBEq α] {a : α} {text l : List α} (h : l ∈ text.splitOn a) : a ∉ l := by
  induction text generalizing l with
  | nil =>
    rw [List.splitOn_nil, List.mem_singleton] at h
    exact h ▸ List.not_mem_nil
  | cons x text ih =>
    rw [List.splitOn_cons_eq_if_modifyHead] at h
    split at h
    · rcases List.mem_cons.mp h with rfl | h
      · exact List.not_mem_nil
      · exact ih h
    · next hx =>
      cases hpieces : text.splitOn a with
      | nil => exact absurd hpieces (List.splitOn_ne_nil a text)
      | cons piece pieces =>
        rw [hpieces] at h ih
        rcases List.mem_cons.mp h with rfl | h
        · rw [List.mem_cons, not_or]
          exact ⟨fun heq => hx (beq_iff_eq.mpr heq.symm), ih List.mem_cons_self⟩
        · exact ih (List.mem_cons_of_mem _ h)

/-- The pieces between the line feeds, of which the last is not ended by one. -/
theorem exists_pieces (text : List Char) : ∃ init last, text.splitOn '\n' = init ++ [last] ∧
    lines text = init.map stripCr ++ [last].filter fun l => decide (l ≠ []) := by
  have hne := List.splitOn_ne_nil '\n' text
  refine ⟨_, _, (List.dropLast_concat_getLast hne).symm, ?_⟩
  simp only [lines]
  rw [List.getLast?_eq_some_getLast hne, Option.toList_some]

theorem lines_cons {l text : List Char} (h : '\n' ∉ l) : lines (l ++ '\n' :: text) = stripCr l :: lines text := by
  have hsplit : (l ++ '\n' :: text).splitOn '\n' = l :: text.splitOn '\n' :=
    List.splitOn_append_cons_self_of_not_mem h _
  obtain ⟨init, last, hpieces, hlines⟩ := exists_pieces text
  rw [hlines, lines, hsplit, hpieces, ← List.cons_append, List.dropLast_concat, List.getLast?_concat]
  rfl

theorem not_mem_of_mem_lines {text l : List Char} (h : l ∈ lines text) : '\n' ∉ l := by
  obtain ⟨init, last, hpieces, hlines⟩ := exists_pieces text
  have hnot : ∀ l ∈ init ++ [last], '\n' ∉ l := fun l hl => not_mem_of_mem_splitOn (hpieces ▸ hl)
  rw [hlines, List.mem_append, List.mem_map] at h
  rcases h with ⟨piece, hpiece, rfl⟩ | h
  · have hpiece := hnot piece (List.mem_append_left _ hpiece)
    rw [stripCr]
    split
    · exact fun hmem => hpiece (List.mem_of_mem_dropLast hmem)
    · exact hpiece
  · exact hnot l (List.mem_append_right _ (List.mem_filter.mp h).1)

/-- What a reader finds in the lines that disregards a carriage return at the end of a line. -/
theorem filterMap_lines {f : List Char → Option β} (hcr : ∀ l, f (stripCr l) = f l) (hnil : f [] = none)
    (text : List Char) : (lines text).filterMap f = (text.splitOn '\n').filterMap f := by
  obtain ⟨init, last, hpieces, hlines⟩ := exists_pieces text
  rw [hpieces, hlines, List.filterMap_append, List.filterMap_append, List.filterMap_map]
  congr 1
  · exact List.filterMap_congr fun l _ => hcr l
  · by_cases hlast : last = []
    · subst hlast
      simp [hnil]
    · rw [List.filter_cons_of_pos (by simpa using hlast), List.filter_nil]

/-- Such a reader finds the same in lines that were joined. -/
theorem filterMap_lines_join {f : List Char → Option β} (hcr : ∀ l, f (stripCr l) = f l) (hnil : f [] = none)
    {ls : List (List Char)} (h : ∀ l ∈ ls, '\n' ∉ l) :
    (lines (join ls)).filterMap f = ls.filterMap f ∧ (lines (join ls ++ ['\n'])).filterMap f = ls.filterMap f := by
  have hjoin : ((join ls).splitOn '\n').filterMap f = ls.filterMap f := by
    cases ls with
    | nil => simp [join, hnil]
    | cons l ls => rw [join, List.splitOn_intercalate '\n' h (List.cons_ne_nil _ _)]
  rw [filterMap_lines hcr hnil, filterMap_lines hcr hnil, List.splitOn_append_cons_self, List.filterMap_append, hjoin]
  exact ⟨rfl, by simp [hnil]⟩

/-! ### Joined lines and their pieces -/

/-- The text with a line feed at its end, if `nl` asks for one. -/
def closeText (nl : Prop) [Decidable nl] (text : List Char) : List Char :=
  if nl ∧ text.getLast? ≠ some '\n' then text ++ ['\n'] else text

/-- The pieces between the line feeds of lines that are joined and closed. -/
def pieces (nl : Prop) [Decidable nl] (ls : List (List Char)) : List (List Char) :=
  if nl ∧ ls.getLast? ≠ some [] then ls ++ [[]] else ls

section Pieces
variable {nl : Prop} [Decidable nl] {ls : List (List Char)} {l : List Char}

theorem mem_pieces (h : l ∈ ls) : l ∈ pieces nl ls := by
  rw [pieces]
  split
  · exact List.mem_append_left _ h
  · exact h

theorem mem_or_nil_of_mem_pieces (h : l ∈ pieces nl ls) : l ∈ ls ∨ l = [] := by
  rw [pieces] at h
  split at h
  · exact (List.mem_append.mp h).imp_right List.mem_singleton.mp
  · exact Or.inl h

theorem filterMap_pieces {f : List Char → Option β} (hnil : f [] = none) : (pieces nl ls).filterMap f = ls.filterMap f := by
  rw [pieces]
  split
  · rw [List.filterMap_append, List.filterMap_cons_none hnil, List.filterMap_nil, List.append_nil]
  · rfl

end Pieces

theorem join_splitOn (text : List Char) : join (text.splitOn '\n') = text := List.intercalate_splitOn '\n'

theorem join_concat {ls : List (List Char)} (h : ls ≠ []) (l : List Char) : join (ls ++ [l]) = join ls ++ '\n' :: l := by
  induction ls with
  | nil => exact absurd rfl h
  | cons l' ls ih =>
    cases ls with
    | nil => simp [join, List.intercalate_cons_cons]
    | cons l'' ls =>
      have hjoin : ∀ rest : List (List Char), rest ≠ [] → join (l' :: rest) = l' ++ '\n' :: join rest := fun rest hrest => by
        rw [join, List.intercalate_cons_of_ne_nil hrest, List.append_assoc]
        rfl
      rw [List.cons_append, hjoin _ (by simp), ih (List.cons_ne_nil _ _), hjoin _ (List.cons_ne_nil _ _),
        List.append_assoc, List.cons_append]

theorem getLast?_join {init : List (List Char)} {last : List Char} (h : '\n' ∉ last) :
    (join (init ++ [last])).getLast? = some '\n' ↔ init ≠ [] ∧ last = [] := by
  have hlast : last ≠ [] → last.getLast? ≠ some '\n' := fun _ hget => h (List.mem_of_getLast? hget)
  by_cases hinit : init = []
  · subst hinit
    rw [List.nil_append, join, List.intercalate_singleton]
    refine iff_of_false (fun hget => h (List.mem_of_getLast? hget)) fun hnot => hnot.1 rfl
  · rw [join_concat hinit, List.getLast?_append]
    cases last with
    | nil => exact iff_of_true rfl ⟨hinit, rfl⟩
    | cons c last =>
      refine iff_of_false (fun hget => ?_) fun hnil => List.cons_ne_nil _ _ hnil.2
      rw [List.getLast?_cons_cons, List.getLast?_eq_some_getLast (List.cons_ne_nil c last), Option.some_or,
        ← List.getLast?_eq_some_getLast] at hget
      exact hlast (List.cons_ne_nil _ _) hget

/-- A text ends with a line feed exactly if its last piece is empty and not the only one. -/
theorem getLast?_eq_newline_iff {text last : List Char} {init : List (List Char)} (h : text.splitOn '\n' = init ++ [last]) :
    text.getLast? = some '\n' ↔ init ≠ [] ∧ last = [] := by
  have hlast : '\n' ∉ last := not_mem_of_mem_splitOn (h ▸ List.mem_append_right _ (List.mem_singleton_self _))
  rw [← getLast?_join hlast, ← h, join_splitOn]

theorem lines_eq_of_splitOn {text last : List Char} {init : List (List Char)} (h : text.splitOn '\n' = init ++ [last]) :
    lines text = init.map stripCr ++ [last].filter fun l => decide (l ≠ []) := by
  obtain ⟨init', last', hpieces, hlines⟩ := exists_pieces text
  obtain ⟨rfl, hlast⟩ := List.append_inj' (hpieces.symm.trans h) rfl
  rw [hlines, hlast]

theorem splitOn_closeText {nl : Prop} [Decidable nl] {ls : List (List Char)} (h : ∀ l ∈ ls, '\n' ∉ l) (hne : ls ≠ [])
    (hblank : ls ≠ [[]]) : (closeText nl (join ls)).splitOn '\n' = pieces nl ls := by
  have hjoin : (join ls).splitOn '\n' = ls := List.splitOn_intercalate '\n' h hne
  have hclosed : (join ls).getLast? = some '\n' ↔ ls.getLast? = some [] := by
    have hsplit := List.dropLast_concat_getLast hne
    have hmem : '\n' ∉ ls.getLast hne := h _ (List.getLast_mem hne)
    rw [List.getLast?_eq_some_getLast hne, Option.some_inj]
    nth_rewrite 1 [← hsplit]
    rw [getLast?_join hmem]
    refine and_iff_right_of_imp fun hlast hinit => hblank ?_
    rw [← hsplit, hinit, hlast]
    rfl
  by_cases hnl : nl ∧ ls.getLast? ≠ some []
  · rw [closeText, if_pos ⟨hnl.1, fun hget => hnl.2 (hclosed.mp hget)⟩, pieces, if_pos hnl,
      List.splitOn_append_cons_self, hjoin]
    rfl
  · rw [closeText, if_neg fun hget => hnl ⟨hget.1, fun hlast => hget.2 (hclosed.mpr hlast)⟩, pieces, if_neg hnl, hjoin]

theorem stripCr_eq_self_iff {l : List Char} : stripCr l = l ↔ l.getLast? ≠ some '\r' := by
  rw [stripCr]
  split
  · next hlast =>
    refine iff_of_false (fun heq => ?_) fun hnot => hnot hlast
    have hlen := congrArg List.length heq
    have hne : l ≠ [] := by
      rintro rfl
      cases hlast
    have hpos := List.length_pos_iff.mpr hne
    rw [List.length_dropLast] at hlen
    omega
  · next hlast => exact iff_of_true rfl hlast

end Lines
