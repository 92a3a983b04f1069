import Mathlib.Data.Nat.Notation
import Mathlib.Logic.Function.Basic

/-! Files by their path, and the calls that write, copy and remove them. Every call may fail, and one that fails while it
    writes may leave anything at the path it writes to. -/

namespace FileSystem

structure File where
  content : List UInt8
  mode : ℕ
deriving DecidableEq

/-- Some execute bit is set. -/
def File.Executable (file : File) : Prop := file.mode &&& 0o111 ≠ 0

instance (file : File) : Decidable file.Executable := inferInstanceAs (Decidable (_ ≠ _))

end FileSystem

abbrev FileSystem := String → Option FileSystem.File

namespace FileSystem

/-- How a call that writes a file ends; if it fails, with what is at the path afterwards. -/
abbrev Outcome := Except (String × Option File) Unit

def notFound : String := "No such file or directory (os error 2)"

def textFileBusy : String := "Text file busy (os error 26)"

def put (fs : FileSystem) (path : String) (file : File) : Outcome → Except String Unit × FileSystem
  | .ok () => (.ok (), Function.update fs path (some file))
  | .error (message, left) => (.error message, Function.update fs path left)

/-- Write a file, which is created with `newMode`. A file that is being executed is not opened for writing. -/
def write (fs : FileSystem) (busy : Bool) (newMode : ℕ) (path : String) (content : List UInt8) (outcome : Outcome) :
    Except String Unit × FileSystem :=
  if busy then (.error textFileBusy, fs) else fs.put path ⟨content, ((fs path).map (·.mode)).getD newMode⟩ outcome

/-- Copy the content and the mode of a file. -/
def copy (fs : FileSystem) (src dst : String) (outcome : Outcome) : Except String Unit × FileSystem :=
  match fs src with
  | none => (.error notFound, fs)
  | some file => fs.put dst file outcome

def remove (fs : FileSystem) (path : String) (outcome : Except String Unit) : Except String Unit × FileSystem :=
  match fs path with
  | none => (.error notFound, fs)
  | some _ =>
    match outcome with
    | .ok () => (.ok (), Function.update fs path none)
    | .error message => (.error message, fs)

def setMode (fs : FileSystem) (path : String) (mode : ℕ) (outcome : Except String Unit) : Except String Unit × FileSystem :=
  match fs path with
  | none => (.error notFound, fs)
  | some file =>
    match outcome with
    | .ok () => (.ok (), Function.update fs path (some { file with mode }))
    | .error message => (.error message, fs)

variable {fs : FileSystem} {path src dst other : String} {file : File} {mode : ℕ}

/-! ### Other paths -/

theorem put_of_ne (h : other ≠ path) (outcome : Outcome) : (fs.put path file outcome).2 other = fs other := by
  cases outcome <;> exact Function.update_of_ne h _ _

theorem copy_of_ne (h : other ≠ dst) (outcome : Outcome) : (fs.copy src dst outcome).2 other = fs other := by
  rw [copy]
  split
  · rfl
  · exact put_of_ne h outcome

theorem remove_of_ne (h : other ≠ path) (outcome : Except String Unit) : (fs.remove path outcome).2 other = fs other := by
  unfold remove
  split
  · rfl
  · cases outcome with
    | ok => exact Function.update_of_ne h _ _
    | error => rfl

/-! ### The path itself -/

theorem copy_of_some (h : fs src = some file) (outcome : Outcome) : fs.copy src dst outcome = fs.put dst file outcome := by
  rw [copy, h]

theorem remove_of_some (h : fs path = some file) (outcome : Except String Unit) :
    fs.remove path outcome = match outcome with
      | .ok () => (.ok (), Function.update fs path none)
      | .error message => (.error message, fs) := by
  unfold remove
  rw [h]

theorem setMode_of_some (h : fs path = some file) (outcome : Except String Unit) :
    fs.setMode path mode outcome = match outcome with
      | .ok () => (.ok (), Function.update fs path (some { file with mode }))
      | .error message => (.error message, fs) := by
  rw [setMode, h]

end FileSystem
