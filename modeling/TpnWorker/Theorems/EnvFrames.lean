import TpnWorker.Api.Admin

/-! What an update of the `.env` file sets and what it leaves alone, for values of any text. The value is written as it
    is, and the lines are split and joined again, so line breaks in the value or unusual line ends in the file
    show up in other places. -/

namespace TpnWorker
open Lines

/-! ### Reading lines -/

/-- What a line `KEY=value` assigns: everything behind the `=`. -/
def EnvKey.assignedOn (key : EnvKey) (line : List Char) : Option (List Char) :=
  let text := line.dropWhile isWhiteSpace
  if (key.assignment []).isPrefixOf text then some (text.drop (key.assignment []).length) else none

/-- The value that the file assigns to a variable: the last assignment wins. -/
def assigned (content : String) (key : EnvKey) : Option String :=
  ((lines content.toList).filterMap key.assignedOn).getLast?.map String.ofList

/-- The file assigns the value to the variable, the other variables are assigned as before, and a second identical call
    leaves the file unchanged. -/
structure SetsOnly (content : String) (key : EnvKey) (value file : String) : Prop where
  sets : assigned file key = some value
  others : ∀ key', key' ≠ key → assigned file key' = assigned content key'
  again : updateEnvValue file key value = file

/-! ### When an update does nothing else -/

def HasLine (content : String) (key : EnvKey) : Prop := (lines content.toList).any key.onLine = true

/-- The lines of the file that a line feed follows after the update: the last line has none if the file does not end with
    one and no line is appended. -/
def followedLines (content : String) (key : EnvKey) : List (List Char) :=
  if content.toList.getLast? = some '\n' ∨ (lines content.toList).any key.onLine = false then lines content.toList
  else (lines content.toList).dropLast

/-- The line that is written last has no line feed behind it. -/
def WrittenLast (content : String) (key : EnvKey) : Prop :=
  content.toList.getLast? ≠ some '\n' ∧
    (HasLine content key → ∃ line, (lines content.toList).getLast? = some line ∧ key.onLine line = true)

/-- A line of another variable is read back as it is. -/
def ReadBack (key : EnvKey) (line : List Char) : Prop := key.onLine line = false → line.getLast? ≠ some '\r'

/-- The value is a single line, no line end of the value or of a line that is kept is mistaken for a part of a line break,
    and an update in place does not meet two blank lines at the end. -/
structure Writable (content : String) (key : EnvKey) (value : String) : Prop where
  single_line : '\n' ∉ value.toList
  value_end : value.toList.getLast? = some '\r' → WrittenLast content key
  line_ends : ∀ line ∈ followedLines content key, ReadBack key line
  blank_end : HasLine content key → ¬[[], []] <:+ lines content.toList

section Line
variable {key key' : EnvKey} {line value : List Char}

theorem valueOn_eq_map : key.valueOn line = (key.assignedOn line).map trimEnd := by
  rw [EnvKey.assignedOn, EnvKey.valueOn]
  have htrim : trim line = trimEnd (line.dropWhile isWhiteSpace) := rfl
  by_cases hprefix : key.assignment [] <+: line.dropWhile isWhiteSpace
  · obtain ⟨rest, hrest⟩ := hprefix
    rw [← assignment_append] at hrest
    have hread : trim line = key.assignment (trimEnd rest) := by
      rw [htrim, ← hrest, ← trim_assignment, trim, dropWhile_assignment]
      rfl
    rw [hread, ← hrest, assignment_append key (trimEnd rest), assignment_append key rest]
    simp
  · have hnot : ¬key.assignment [] <+: trim line := by
      rw [htrim]
      refine fun h => hprefix (h.trans ?_)
      rw [trimEnd, ← List.reverse_suffix, List.reverse_reverse]
      exact List.dropWhile_suffix _
    rw [if_neg (by rwa [List.isPrefixOf_iff_prefix]), if_neg (by rwa [List.isPrefixOf_iff_prefix])]
    rfl

theorem assignedOn_of_onLine (hne : key ≠ key') (h : key.onLine line = true) : key'.assignedOn line = none := by
  have hvalue := valueOn_of_onLine hne h
  rw [valueOn_eq_map] at hvalue
  exact Option.map_eq_none_iff.mp hvalue

theorem onLine_of_assignedOn (h : key.assignedOn line = some value) : key.onLine line = true := by
  have hvalue : key.valueOn line = some (trimEnd value) := by rw [valueOn_eq_map, h, Option.map_some]
  exact onLine_of_valueOn hvalue

theorem assignedOn_assignment : key.assignedOn (key.assignment value) = some value := by
  rw [EnvKey.assignedOn, dropWhile_assignment, assignment_append key value]
  simp

theorem assignedOn_nil : key.assignedOn [] = none := by
  have hvalue : key.valueOn [] = none := valueOn_nil
  rw [valueOn_eq_map] at hvalue
  exact Option.map_eq_none_iff.mp hvalue

theorem getLast?_assignment (hvalue : value ≠ []) : (key.assignment value).getLast? = value.getLast? := by
  rw [EnvKey.assignment, List.getLast?_append, List.getLast?_cons_of_ne_nil hvalue]
  cases hlast : value.getLast? with
  | none => exact absurd (List.getLast?_eq_none_iff.mp hlast) hvalue
  | some c => rfl

theorem stripCr_assignment : stripCr (key.assignment value) = key.assignment (stripCr value) := by
  cases value with
  | nil =>
    rw [show stripCr [] = [] from rfl, stripCr_eq_self_iff, EnvKey.assignment]
    simp
  | cons c cs =>
    rw [stripCr, stripCr, getLast?_assignment (List.cons_ne_nil c cs)]
    split
    · rw [EnvKey.assignment, EnvKey.assignment, List.dropLast_append_of_ne_nil (List.cons_ne_nil _ _),
        List.dropLast_cons_of_ne_nil (List.cons_ne_nil c cs)]
    · rfl

theorem assignment_ne_nil : key.assignment value ≠ [] := by simp [EnvKey.assignment]

end Line

/-! ### The new file -/

/-- The pieces of the new file: `init` are followed by a line feed, `last` is not. -/
structure Rewritten (content : String) (key : EnvKey) (value : String) (init : List (List Char)) (last : List Char) : Prop where
  own : ∀ line ∈ init ++ [last], key.onLine line = true → line = key.assignment value.toList
  written : key.assignment value.toList ∈ init ++ [last]
  line_ends : (∀ line ∈ init, ReadBack key line) ↔ ∀ line ∈ followedLines content key, ReadBack key line
  blank_end : (last = [] → init.getLast? ≠ some []) ↔ (HasLine content key → ¬[[], []] <:+ lines content.toList)
  written_last : last = key.assignment value.toList ↔ WrittenLast content key
  others : ∀ f : List Char → Option (List Char), f [] = none → (∀ line, key.onLine line = true → f line = none) →
    (init ++ [last]).filterMap f = (lines content.toList).filterMap f

section Update
variable {content : String} {key : EnvKey} {value : String} {init : List (List Char)} {last : List Char}

theorem updatedLine_nil : updatedLine key value.toList [] = [] := by rw [updatedLine, onLine_nil, if_neg Bool.false_ne_true]

theorem updatedLine_eq_nil_iff {line : List Char} : updatedLine key value.toList line = [] ↔ line = [] := by
  rw [updatedLine]
  split
  · next hline =>
    refine iff_of_false assignment_ne_nil ?_
    rintro rfl
    rw [onLine_nil] at hline
    cases hline
  · rfl

theorem readBack_updatedLine {line : List Char} : ReadBack key (updatedLine key value.toList line) ↔ ReadBack key line := by
  rw [updatedLine]
  split
  · next hline =>
    exact iff_of_true (fun h => by cases h.symm.trans onLine_assignment) fun h => by cases h.symm.trans hline
  · rfl

theorem readBack_assignment : ReadBack key (key.assignment value.toList) := fun h => by cases h.symm.trans onLine_assignment

theorem getLast?_lines_ne (h : content.toList.getLast? ≠ some '\n') : (lines content.toList).getLast? ≠ some [] := by
  obtain ⟨init, last, hpieces, hlines⟩ := exists_pieces content.toList
  rw [hlines]
  by_cases hlast : last = []
  · have hinit : init = [] := by
      by_contra hinit
      exact h ((getLast?_eq_newline_iff hpieces).mpr ⟨hinit, hlast⟩)
    subst hinit hlast
    exact Option.some_ne_none _ ∘ Eq.symm
  · rw [List.filter_cons_of_pos (by simpa using hlast), List.filter_nil, List.getLast?_concat]
    exact fun heq => hlast (Option.some.inj heq)

theorem splitOn_updateEnvValue (hvalue : '\n' ∉ value.toList) : (updateEnvValue content key value).toList.splitOn '\n' =
    pieces (content.toList.getLast? = some '\n') (updatedLines content key value) := by
  have hmem : key.assignment value.toList ∈ updatedLines content key value := assignment_mem_updatedLines
  rw [updateEnvValue, String.toList_ofList]
  refine splitOn_closeText (not_mem_updatedLines hvalue) (List.ne_nil_of_mem hmem) fun hblank => ?_
  rw [hblank, List.mem_singleton] at hmem
  exact assignment_ne_nil hmem

/-- What holds of the pieces of the new file in any case. -/
theorem rewritten_of_pieces
    (h : pieces (content.toList.getLast? = some '\n') (updatedLines content key value) = init ++ [last])
    (line_ends : (∀ line ∈ init, ReadBack key line) ↔ ∀ line ∈ followedLines content key, ReadBack key line)
    (blank_end : (last = [] → init.getLast? ≠ some []) ↔ (HasLine content key → ¬[[], []] <:+ lines content.toList))
    (written_last : last = key.assignment value.toList ↔ WrittenLast content key) :
    Rewritten content key value init last := by
  refine ⟨fun line hline hkey => ?_, ?_, line_ends, blank_end, written_last, fun f hnil hf => ?_⟩
  · rw [← h] at hline
    rcases mem_or_nil_of_mem_pieces hline with hline | rfl
    · exact updatedLines_own hline hkey
    · cases onLine_nil.symm.trans hkey
  · rw [← h]
    exact mem_pieces assignment_mem_updatedLines
  · rw [← h, filterMap_pieces hnil, filterMap_updatedLines hf]

/-- The assignment is appended, and the other lines are as before. -/
theorem rewritten_appended (h : (lines content.toList).any key.onLine = false) :
    ∃ init last, pieces (content.toList.getLast? = some '\n') (updatedLines content key value) = init ++ [last] ∧
      Rewritten content key value init last := by
  have hnone : ∀ line ∈ lines content.toList, ¬key.onLine line = true := List.any_eq_false.mp h
  have hnot : ¬HasLine content key := Bool.eq_false_iff.mp h
  have hsame : (lines content.toList).map (updatedLine key value.toList) = lines content.toList := by
    refine (List.map_congr_left fun line hline => ?_).trans (List.map_id _)
    exact if_neg (hnone line hline)
  have hlines : updatedLines content key value = lines content.toList ++ [key.assignment value.toList] := by
    rw [updatedLines, hsame, h, if_neg Bool.false_ne_true]
  have hlast : (updatedLines content key value).getLast? ≠ some [] := by
    rw [hlines, List.getLast?_concat]
    exact fun heq => assignment_ne_nil (Option.some.inj heq)
  have hfollowed : followedLines content key = lines content.toList := if_pos (Or.inr h)
  by_cases hnl : content.toList.getLast? = some '\n'
  · have hpieces : pieces (content.toList.getLast? = some '\n') (updatedLines content key value) =
        updatedLines content key value ++ [[]] := if_pos ⟨hnl, hlast⟩
    refine ⟨_, _, hpieces, rewritten_of_pieces hpieces ?_ ?_ ?_⟩
    · rw [hfollowed, hlines, List.forall_mem_append]
      refine and_iff_left fun line hline => ?_
      rw [List.mem_singleton.mp hline]
      exact readBack_assignment
    · exact iff_of_true (fun _ => hlast) fun hline => absurd hline hnot
    · exact iff_of_false assignment_ne_nil.symm fun hopen => hopen.1 hnl
  · have hpieces : pieces (content.toList.getLast? = some '\n') (updatedLines content key value) =
        lines content.toList ++ [key.assignment value.toList] := (if_neg fun hclosed => hnl hclosed.1).trans hlines
    refine ⟨_, _, hpieces, rewritten_of_pieces hpieces ?_ ?_ ?_⟩
    · rw [hfollowed]
    · exact iff_of_true (fun hnil => absurd hnil assignment_ne_nil) fun hline => absurd hline hnot
    · exact iff_of_true rfl ⟨hnl, fun hline => absurd hline hnot⟩

theorem getLast?_map_updatedLine {ls : List (List Char)} :
    (ls.map (updatedLine key value.toList)).getLast? = some [] ↔ ls.getLast? = some [] := by
  rw [List.getLast?_map, Option.map_eq_some_iff]
  constructor
  · rintro ⟨line, hline, hnil⟩
    rw [hline, updatedLine_eq_nil_iff.mp hnil]
  · exact fun h => ⟨[], h, updatedLine_nil⟩

theorem two_blank_iff {ls : List (List Char)} : [[], []] <:+ ls ++ [[]] ↔ ls.getLast? = some ([] : List Char) := by
  constructor
  · rintro ⟨lead, hlead⟩
    have hsplit : (lead ++ [[]]) ++ [[]] = ls ++ [[]] := by
      rw [← hlead, List.append_assoc]
      rfl
    rw [← List.append_cancel_right hsplit, List.getLast?_concat]
  · intro hlast
    obtain ⟨lead, rfl⟩ := List.getLast?_eq_some_iff.mp hlast
    exact ⟨lead, by rw [List.append_assoc]; rfl⟩

theorem not_two_blank {ls : List (List Char)} (h : ls.getLast? ≠ some []) : ¬[[], []] <:+ ls := by
  rintro ⟨lead, rfl⟩
  rw [List.getLast?_append] at h
  exact h rfl

theorem readBack_map_updatedLine {ls : List (List Char)} :
    (∀ line ∈ ls.map (updatedLine key value.toList), ReadBack key line) ↔ ∀ line ∈ ls, ReadBack key line := by
  rw [List.forall_mem_map]
  exact forall₂_congr fun _ _ => readBack_updatedLine

/-- The lines of the variable are replaced. -/
theorem rewritten_replaced (h : (lines content.toList).any key.onLine = true) :
    ∃ init last, pieces (content.toList.getLast? = some '\n') (updatedLines content key value) = init ++ [last] ∧
      Rewritten content key value init last := by
  have hlines : updatedLines content key value = (lines content.toList).map (updatedLine key value.toList) := by
    rw [updatedLines, if_pos h]
  have hblank : (updatedLines content key value).getLast? = some [] ↔ (lines content.toList).getLast? = some [] := by
    rw [hlines, getLast?_map_updatedLine]
  obtain ⟨ls, line, hls⟩ : ∃ ls line, lines content.toList = ls ++ [line] := by
    obtain ⟨line, hline, -⟩ := List.any_eq_true.mp h
    exact ⟨_, _, (List.dropLast_concat_getLast (List.ne_nil_of_mem hline)).symm⟩
  have hconcat : updatedLines content key value = ls.map (updatedLine key value.toList) ++ [updatedLine key value.toList line] := by
    rw [hlines, hls, List.map_append, List.map_singleton]
  by_cases hnl : content.toList.getLast? = some '\n'
  · have hfollowed : followedLines content key = lines content.toList := if_pos (Or.inl hnl)
    by_cases hlast : (lines content.toList).getLast? = some []
    · -- the blank line at the end takes the place of the line feed that is to be kept
      have hline : line = [] := by rwa [hls, List.getLast?_concat, Option.some_inj] at hlast
      rw [hline] at hls
      rw [hline, updatedLine_nil] at hconcat
      have hpieces : pieces (content.toList.getLast? = some '\n') (updatedLines content key value) =
          ls.map (updatedLine key value.toList) ++ [[]] :=
        (if_neg fun hclosed => hclosed.2 (hblank.mpr hlast)).trans hconcat
      refine ⟨_, _, hpieces, rewritten_of_pieces hpieces ?_ ?_ ?_⟩
      · rw [hfollowed, hls, readBack_map_updatedLine, List.forall_mem_append]
        refine (and_iff_left fun line hline => ?_).symm
        rw [List.mem_singleton.mp hline]
        exact fun _ hcr => by cases hcr
      · rw [hls, two_blank_iff, ne_eq, getLast?_map_updatedLine]
        exact ⟨fun hnot _ => hnot rfl, fun hnot _ => hnot h⟩
      · exact iff_of_false assignment_ne_nil.symm fun hopen => hopen.1 hnl
    · have hpieces : pieces (content.toList.getLast? = some '\n') (updatedLines content key value) =
          (lines content.toList).map (updatedLine key value.toList) ++ [[]] :=
        (if_pos ⟨hnl, fun hnil => hlast (hblank.mp hnil)⟩).trans (congrArg (· ++ [[]]) hlines)
      refine ⟨_, _, hpieces, rewritten_of_pieces hpieces ?_ ?_ ?_⟩
      · rw [hfollowed, readBack_map_updatedLine]
      · rw [ne_eq, getLast?_map_updatedLine]
        exact iff_of_true (fun _ => hlast) fun _ => not_two_blank hlast
      · exact iff_of_false assignment_ne_nil.symm fun hopen => hopen.1 hnl
  · have hlast := getLast?_lines_ne hnl
    have hline : line ≠ [] := by
      rw [hls, List.getLast?_concat] at hlast
      exact fun heq => hlast (congrArg some heq)
    have hfollowed : followedLines content key = ls := by
      rw [followedLines, if_neg (not_or.mpr ⟨hnl, by rw [h]; exact Bool.noConfusion⟩), hls, List.dropLast_concat]
    have hpieces : pieces (content.toList.getLast? = some '\n') (updatedLines content key value) =
        ls.map (updatedLine key value.toList) ++ [updatedLine key value.toList line] :=
      (if_neg fun hclosed => hnl hclosed.1).trans hconcat
    refine ⟨_, _, hpieces, rewritten_of_pieces hpieces ?_ ?_ ?_⟩
    · rw [hfollowed, readBack_map_updatedLine]
    · exact iff_of_true (fun hnil => absurd (updatedLine_eq_nil_iff.mp hnil) hline) fun _ => not_two_blank hlast
    · constructor
      · refine fun heq => ⟨hnl, fun _ => ⟨line, by rw [hls, List.getLast?_concat], ?_⟩⟩
        by_contra hkey
        rw [updatedLine, if_neg hkey] at heq
        exact hkey (heq ▸ onLine_assignment)
      · rintro ⟨-, hopen⟩
        obtain ⟨line', hline', hkey⟩ := hopen h
        rw [hls, List.getLast?_concat, Option.some_inj] at hline'
        exact if_pos (hline' ▸ hkey)

theorem exists_rewritten (content : String) (key : EnvKey) (hvalue : '\n' ∉ value.toList) :
    ∃ init last, (updateEnvValue content key value).toList.splitOn '\n' = init ++ [last] ∧
      Rewritten content key value init last := by
  rw [splitOn_updateEnvValue hvalue]
  cases h : (lines content.toList).any key.onLine with
  | false => exact rewritten_appended h
  | true => exact rewritten_replaced h

/-! ### A second call -/

theorem eq_iff_splitOn {text text' : List Char} : text = text' ↔ text.splitOn '\n' = text'.splitOn '\n' :=
  ⟨fun h => h ▸ rfl, fun h => by rw [← join_splitOn text, h, join_splitOn]⟩

/-- An update in place leaves the file unchanged exactly if every line is written as it was read, and the file does not end
    with a blank line. -/
theorem updateEnvValue_eq_self_iff (hvalue : '\n' ∉ value.toList) (hline : HasLine content key)
    (h : content.toList.splitOn '\n' = init ++ [last]) :
    updateEnvValue content key value = content ↔
      init.map (updatedLine key value.toList ∘ stripCr) = init ∧ updatedLine key value.toList last = last ∧
        (last = [] → init.getLast? ≠ some []) := by
  have hlines := lines_eq_of_splitOn h
  have hnl := getLast?_eq_newline_iff h
  have hwritten : updatedLines content key value = (lines content.toList).map (updatedLine key value.toList) := if_pos hline
  rw [← String.toList_inj, eq_iff_splitOn, splitOn_updateEnvValue hvalue, h, hwritten, hlines, List.map_append, List.map_map]
  by_cases hlast : last = []
  · subst hlast
    have hinit : init ≠ [] := by
      rintro rfl
      rw [HasLine, hlines] at hline
      exact Bool.false_ne_true hline
    rw [List.filter_cons_of_neg (by simp), List.filter_nil, List.map_nil, List.append_nil, pieces]
    by_cases hblank : (init.map (updatedLine key value.toList ∘ stripCr)).getLast? = some []
    · rw [if_neg fun hclosed => hclosed.2 hblank]
      refine iff_of_false (fun heq => ?_) fun hsame => hsame.2.2 rfl (hsame.1 ▸ hblank)
      have hlen := congrArg List.length heq
      rw [List.length_append, List.length_map, List.length_singleton] at hlen
      omega
    · rw [if_pos ⟨hnl.mpr ⟨hinit, rfl⟩, hblank⟩, List.append_left_inj]
      exact ⟨fun heq => ⟨heq, updatedLine_nil, fun _ hnil => hblank (heq.symm ▸ hnil)⟩, fun heq => heq.1⟩
  · rw [List.filter_cons_of_pos (by simpa using hlast), List.filter_nil, List.map_singleton, pieces,
      if_neg fun hclosed => hlast (hnl.mp hclosed.1).2]
    constructor
    · intro heq
      obtain ⟨hinit, hsame⟩ := List.append_inj' heq rfl
      exact ⟨hinit, (List.cons.inj hsame).1, fun hnil => absurd hnil hlast⟩
    · rintro ⟨hinit, hsame, -⟩
      rw [hinit, hsame]

/-- A line that a line feed follows is written as it was read exactly if a reader finds all of it. -/
theorem updatedLine_stripCr_iff {line : List Char} (hown : key.onLine line = true → line = key.assignment value.toList) :
    updatedLine key value.toList (stripCr line) = line ↔ ReadBack key line := by
  rw [updatedLine, onLine_stripCr]
  split
  · next hkey => exact iff_of_true (hown hkey).symm fun hnot => by cases hnot.symm.trans hkey
  · next hkey =>
    rw [stripCr_eq_self_iff]
    exact ⟨fun hcr _ => hcr, fun hcr => hcr (Bool.eq_false_iff.mpr hkey)⟩

theorem map_eq_self_iff {α : Type} {f : α → α} {l : List α} : l.map f = l ↔ ∀ a ∈ l, f a = a := by
  have hmap : l.map f = l.map id ↔ ∀ a ∈ l, f a = id a := List.map_inj_left
  rwa [List.map_id] at hmap

theorem again_iff (hvalue : '\n' ∉ value.toList)
    (hsplit : (updateEnvValue content key value).toList.splitOn '\n' = init ++ [last])
    (h : Rewritten content key value init last) :
    updateEnvValue (updateEnvValue content key value) key value = updateEnvValue content key value ↔
      (∀ line ∈ followedLines content key, ReadBack key line) ∧ (HasLine content key → ¬[[], []] <:+ lines content.toList) := by
  have hline : HasLine (updateEnvValue content key value) key := by
    rw [HasLine, List.any_eq_true, lines_eq_of_splitOn hsplit]
    rcases List.mem_append.mp h.written with hmem | hmem
    · refine ⟨_, List.mem_append_left _ (List.mem_map_of_mem hmem), ?_⟩
      rw [onLine_stripCr, onLine_assignment]
    · refine ⟨_, List.mem_append_right _ (List.mem_filter.mpr ⟨hmem, ?_⟩), onLine_assignment⟩
      exact decide_eq_true assignment_ne_nil
  have hlast : updatedLine key value.toList last = last := by
    rw [updatedLine]
    split
    · next hkey => exact (h.own last (List.mem_append_right _ (List.mem_singleton_self _)) hkey).symm
    · rfl
  rw [updateEnvValue_eq_self_iff hvalue hline hsplit, map_eq_self_iff, and_iff_right hlast, h.blank_end, ← h.line_ends]
  refine and_congr_left' (forall₂_congr fun line hmem => ?_)
  exact updatedLine_stripCr_iff (h.own line (List.mem_append_left _ hmem))

/-! ### Reading the new file -/

theorem filterMap_lines_eq {f : List Char → Option (List Char)} {text : List Char} (hnil : f [] = none)
    (hsplit : text.splitOn '\n' = init ++ [last]) :
    (lines text).filterMap f = (init.map stripCr).filterMap f ++ (f last).toList := by
  rw [lines_eq_of_splitOn hsplit, List.filterMap_append]
  congr 1
  by_cases hlast : last = []
  · subst hlast
    rw [hnil]
    rfl
  · rw [List.filter_cons_of_pos (by simpa using hlast), List.filter_nil]
    cases hf : f last with
    | none => rw [List.filterMap_cons_none hf, List.filterMap_nil, Option.toList_none]
    | some a => rw [List.filterMap_cons_some hf, List.filterMap_nil, Option.toList_some]

/-- The other variables are assigned as before if the lines that are kept are read back as they are. -/
theorem others_of_readBack (hsplit : (updateEnvValue content key value).toList.splitOn '\n' = init ++ [last])
    (h : Rewritten content key value init last) (hread : ∀ line ∈ init, ReadBack key line) {key' : EnvKey} (hne : key' ≠ key) :
    assigned (updateEnvValue content key value) key' = assigned content key' := by
  have hown : ∀ line, key.onLine line = true → key'.assignedOn line = none := fun line => assignedOn_of_onLine hne.symm
  have hinit : (init.map stripCr).filterMap key'.assignedOn = init.filterMap key'.assignedOn := by
    rw [List.filterMap_map]
    refine List.filterMap_congr fun line hline => ?_
    rw [Function.comp_apply]
    cases hkey : key.onLine line with
    | true => rw [hown line hkey, hown _ (onLine_stripCr.trans hkey)]
    | false => rw [stripCr_eq_self_iff.mpr (hread line hline hkey)]
  have hlast : (key'.assignedOn last).toList = [last].filterMap key'.assignedOn := by
    cases hlast : key'.assignedOn last with
    | none => rw [List.filterMap_cons_none hlast, List.filterMap_nil, Option.toList_none]
    | some a => rw [List.filterMap_cons_some hlast, List.filterMap_nil, Option.toList_some]
  rw [assigned, assigned, filterMap_lines_eq assignedOn_nil hsplit, hinit, hlast, ← List.filterMap_append,
    h.others _ assignedOn_nil hown]

/-- The variable has the value that was written, unless a carriage return at the end of it is read as a part of a line
    break. -/
theorem sets_iff (hsplit : (updateEnvValue content key value).toList.splitOn '\n' = init ++ [last])
    (h : Rewritten content key value init last) :
    assigned (updateEnvValue content key value) key = some value ↔
      (value.toList.getLast? = some '\r' → WrittenLast content key) := by
  have hown : ∀ line ∈ init ++ [last], ∀ text, key.assignedOn line = some text → line = key.assignment value.toList :=
    fun line hline text htext => h.own line hline (onLine_of_assignedOn htext)
  have hinit : ∀ text ∈ (init.map stripCr).filterMap key.assignedOn, text = stripCr value.toList := by
    intro text htext
    obtain ⟨line, hline, hread⟩ := List.mem_filterMap.mp htext
    obtain ⟨line, hmem, rfl⟩ := List.mem_map.mp hline
    have hkey : key.onLine line = true := onLine_stripCr.symm.trans (onLine_of_assignedOn hread)
    rw [h.own line (List.mem_append_left _ hmem) hkey, stripCr_assignment, assignedOn_assignment] at hread
    exact (Option.some.inj hread).symm
  rw [assigned, filterMap_lines_eq assignedOn_nil hsplit, ← h.written_last]
  by_cases hlast : last = key.assignment value.toList
  · rw [hlast, assignedOn_assignment, Option.toList_some, List.getLast?_concat, Option.map_some, String.ofList_toList]
    exact iff_of_true rfl fun _ => rfl
  · have hnone : key.assignedOn last = none := by
      cases hread : key.assignedOn last with
      | none => rfl
      | some text => exact absurd (hown last (List.mem_append_right _ (List.mem_singleton_self _)) text hread) hlast
    have hmem : stripCr value.toList ∈ (init.map stripCr).filterMap key.assignedOn := by
      rcases List.mem_append.mp h.written with hwritten | hwritten
      · refine List.mem_filterMap.mpr ⟨_, List.mem_map_of_mem hwritten, ?_⟩
        rw [stripCr_assignment, assignedOn_assignment]
      · exact absurd (List.mem_singleton.mp hwritten).symm hlast
    have hne := List.ne_nil_of_mem hmem
    rw [hnone, Option.toList_none, List.append_nil, List.getLast?_eq_some_getLast hne,
      hinit _ (List.getLast_mem hne), Option.map_some, Option.some_inj]
    constructor
    · intro heq hcr
      have hstrip : stripCr value.toList = value.toList := String.ofList_inj.mp (heq.trans String.ofList_toList.symm)
      exact absurd hcr (stripCr_eq_self_iff.mp hstrip)
    · intro hcr
      rw [stripCr_eq_self_iff.mpr fun hlastCr => hlast (hcr hlastCr), String.ofList_toList]

/-- No line that is read contains a line feed, so a value with one is never read back. -/
theorem assigned_single_line {file : String} (h : assigned file key = some value) : '\n' ∉ value.toList := by
  rw [assigned, Option.map_eq_some_iff] at h
  obtain ⟨text, htext, rfl⟩ := h
  obtain ⟨line, hline, hread⟩ := List.mem_filterMap.mp (List.mem_of_getLast? htext)
  rw [EnvKey.assignedOn] at hread
  split at hread
  · cases hread
    rw [String.toList_ofList]
    exact fun hmem => not_mem_of_mem_lines hline ((List.dropWhile_suffix _).mem (List.mem_of_mem_drop hmem))
  · cases hread

end Update

/-- An update sets its variable, leaves the others alone and is idempotent exactly if the value and the file are fit for
    it. -/
theorem update_sets_only_iff (content : String) (key : EnvKey) (value : String) :
    SetsOnly content key value (updateEnvValue content key value) ↔ Writable content key value := by
  constructor
  · rintro ⟨hsets, hothers, hagain⟩
    have hvalue := assigned_single_line hsets
    obtain ⟨init, last, hsplit, h⟩ := exists_rewritten content key hvalue
    obtain ⟨hends, hblank⟩ := (again_iff hvalue hsplit h).mp hagain
    exact ⟨hvalue, (sets_iff hsplit h).mp hsets, hends, hblank⟩
  · rintro ⟨hvalue, hend, hends, hblank⟩
    obtain ⟨init, last, hsplit, h⟩ := exists_rewritten content key hvalue
    refine ⟨(sets_iff hsplit h).mpr hend, fun key' hne => ?_, (again_iff hvalue hsplit h).mpr ⟨hends, hblank⟩⟩
    exact others_of_readBack hsplit h (h.line_ends.mpr hends) hne

/-- A pool address with a second line empties the password, and a port that is written twice changes the end of the file
    twice. -/
theorem update_sets_more :
    (let content := "LOGIN_PASSWORD=secret\nMINING_POOL_URL=http://pool.example\n"
      let file := updateEnvValue content .miningPoolUrl "http://pool.example\nLOGIN_PASSWORD="
      assigned content .loginPassword = some "secret" ∧ assigned file .loginPassword = some "" ∧
        ¬SetsOnly content .miningPoolUrl "http://pool.example\nLOGIN_PASSWORD=" file) ∧
      ¬SetsOnly "SOCKS5_PORT=1080\n\n\n" .socks5Port "1081" (updateEnvValue "SOCKS5_PORT=1080\n\n\n" .socks5Port "1081") := by
  refine ⟨⟨by decide +kernel, by decide +kernel, fun h => ?_⟩, fun h => ?_⟩
  · have hkept := h.others .loginPassword (by decide)
    exact absurd hkept (by decide +kernel)
  · exact absurd h.again (by decide +kernel)

end TpnWorker
