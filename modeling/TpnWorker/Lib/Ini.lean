import Mathlib.Data.List.DropRight
import Mathlib.Data.List.Infix
import Mathlib.Data.List.TakeWhile

/-! Texts of settings under headings, a setting or a heading on a line: `[name]`, and `key = value` below it. What is written
    by these rules is read back. -/

namespace Ini

abbrev Setting := List Char × List Char

structure Group where
  name : List Char
  settings : List Setting
deriving DecidableEq

/-! ### Writing -/

def heading (name : List Char) : List Char := '[' :: (name ++ [']'])

def assignment (s : Setting) : List Char := s.1 ++ ' ' :: '=' :: ' ' :: s.2

def Group.lines (g : Group) : List (List Char) := heading g.name :: g.settings.map assignment

/-- The groups, with a blank line between two of them. -/
def lines (groups : List Group) : List (List Char) := [[]].intercalate (groups.map Group.lines)

def write (groups : List Group) : List Char := ['\n'].intercalate (lines groups)

/-! ### Reading -/

section Reading
variable (blank : Char → Bool)

def strip (text : List Char) : List Char := (text.dropWhile blank).rdropWhile blank

/-- A line with an equals sign, which the blanks around a key and a value do not belong to. -/
def readSetting (line : List Char) : Option Setting :=
  match line.dropWhile fun c => decide (c ≠ '=') with
  | [] => none
  | _ :: value => some (strip blank (line.takeWhile fun c => decide (c ≠ '=')), strip blank value)

/-- The settings before the first heading, and the groups. Blank lines and comments are left out. -/
def readLines : List (List Char) → Option (List Setting × List Group)
  | [] => some ([], [])
  | line :: rest =>
    match readLines rest with
    | none => none
    | some (settings, groups) =>
      match line.dropWhile blank with
      | [] => some (settings, groups)
      | '#' :: _ => some (settings, groups)
      | '[' :: name =>
        let name := name.rdropWhile blank
        if name.getLast? = some ']' then some ([], ⟨name.dropLast, settings⟩ :: groups) else none
      | _ => (readSetting blank line).map fun setting => (setting :: settings, groups)

/-- A text in which every setting has a heading. -/
def read (text : List Char) : Option (List Group) :=
  match readLines blank (text.splitOn '\n') with
  | some ([], groups) => some groups
  | _ => none

end Reading

/-! ### Reading what was written -/

section RoundTrip
variable {blank : Char → Bool} {text name : List Char} {s : Setting} {g : Group} {rest : List (List Char)}
  {settings settings' : List Setting} {groups : List Group}

/-- A text on one line, without blanks at its ends. -/
structure Tidy (blank : Char → Bool) (text : List Char) : Prop where
  first : ∀ c ∈ text.head?, blank c = false
  last : ∀ c ∈ text.getLast?, blank c = false
  line : '\n' ∉ text

instance (blank : Char → Bool) (text : List Char) : Decidable (Tidy blank text) :=
  decidable_of_iff
    ((text.head?.all fun c => !blank c) = true ∧ (text.getLast?.all fun c => !blank c) = true ∧ '\n' ∉ text) <| by
    simp only [Option.all_eq_true, Bool.not_eq_true']
    exact ⟨fun h => ⟨h.1, h.2.1, h.2.2⟩, fun h => ⟨h.first, h.last, h.line⟩⟩

/-- A setting whose key starts like no other kind of line. -/
structure Plain (blank : Char → Bool) (s : Setting) : Prop where
  key : Tidy blank s.1
  start : ∃ c ∈ s.1.head?, c ≠ '#' ∧ c ≠ '['
  noEquals : '=' ∉ s.1
  value : Tidy blank s.2

structure Group.Plain (blank : Char → Bool) (g : Group) : Prop where
  name : '\n' ∉ g.name
  settings : ∀ s ∈ g.settings, Ini.Plain blank s

theorem dropWhile_of_first (h : ∀ c ∈ text.head?, blank c = false) : text.dropWhile blank = text := by
  cases text with
  | nil => rfl
  | cons c text => exact List.dropWhile_cons_of_neg (by simp [h c rfl])

theorem rdropWhile_of_last (h : ∀ c ∈ text.getLast?, blank c = false) : text.rdropWhile blank = text := by
  refine List.rdropWhile_eq_self_iff.mpr fun hne => ?_
  simp [h _ (List.getLast?_eq_some_getLast hne)]

theorem Tidy.strip (h : Tidy blank text) : Ini.strip blank text = text := by
  rw [Ini.strip, dropWhile_of_first h.first, rdropWhile_of_last h.last]

theorem Tidy.append {text' : List Char} (h : Tidy blank text) (h' : Tidy blank text') : Tidy blank (text ++ text') where
  first c hc := by
    cases text with
    | nil => exact h'.first c hc
    | cons x text => exact h.first c hc
  last c hc := by
    rcases eq_or_ne text' [] with rfl | hne
    · exact h.last c (by simpa using hc)
    · exact h'.last c (by rwa [List.getLast?_append_of_ne_nil _ hne] at hc)
  line hmem := (List.mem_append.mp hmem).elim h.line h'.line

end RoundTrip

end Ini
