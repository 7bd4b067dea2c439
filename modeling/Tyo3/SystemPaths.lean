import Tyo3.FiniteMaps
import Tyo3.TextSearch

/-!
# Absolute paths and the disk

A path is the list of its components from the root of the file system. The
disk maps paths to what stands there. Reading tells an absent file from one
that cannot be read.
-/

namespace Tyo3.SystemPaths

open FiniteMaps TextSearch

/-- An absolute path. -/
structure SystemPath where
  /-- Components from the root of the file system. -/
  components : List String
  deriving DecidableEq, Repr, Inhabited

namespace SystemPath

variable (p : SystemPath)

/-- The path as text. -/
def asStr : String := "/" ++ String.intercalate "/" p.components

/-- The last component, absent for the root and for a parent reference. -/
def fileName : Option String :=
  match p.components.getLast? with
  | none => none
  | some name => if name = ".." then none else some name

/-- What follows the last dot of the file name, absent when nothing precedes
the dot. -/
def extension : Option String :=
  match p.fileName with
  | none => none
  | some name => match rsplitOnce "." name with
    | none => none
    | some (before, after) => if before = "" then none else some after

/-- The path itself and all directories above it. -/
def ancestors : List SystemPath := p.components.inits.map SystemPath.mk

/-- Whether the path is a directory or lies below it. -/
def isUnder (dir : SystemPath) : Bool := dir.components.isPrefixOf p.components

/-- A path below a directory. -/
def join (names : List String) : SystemPath := ⟨p.components ++ names⟩

end SystemPath

/-- The names of project configuration files. -/
def configFileNames : List String := ["pyproject.toml", "ty.toml", "setup.cfg", "setup.py"]

/-- Whether a path is a project configuration file. -/
def isProjectConfigFile (p : SystemPath) : Bool :=
  match p.fileName with
  | some name => configFileNames.contains name
  | none => false

/-- Whether a path has an extension of Python source files. -/
def isPySource (pyExtension : String → Bool) (p : SystemPath) : Bool :=
  match p.extension with
  | some extension => pyExtension extension
  | none => false

/-- Whether a path belongs into an analysis generation: Python source or
project configuration outside the sidecar directory. -/
def isProjectRelevant (pyExtension : String → Bool) (p : SystemPath) : Bool :=
  if p.ancestors.any fun q => q.fileName = some ".tyo3" then false
  else isPySource pyExtension p || isProjectConfigFile p

/-- No component of a relevant path is the sidecar directory. -/
theorem not_mem_of_isProjectRelevant {pyExtension : String → Bool} {p : SystemPath}
    (h : isProjectRelevant pyExtension p = true) : ".tyo3" ∉ p.components := by
  intro hmem
  obtain ⟨front, back, hsplit⟩ := List.append_of_mem hmem
  have hfound : (p.ancestors.any fun q => decide (q.fileName = some ".tyo3")) = true := by
    rw [List.any_eq_true]
    refine ⟨⟨front ++ [".tyo3"]⟩, ?_, ?_⟩
    · apply List.mem_map_of_mem
      rw [List.mem_inits, hsplit]
      exact ⟨back, by simp⟩
    · simp [SystemPath.fileName]
  unfold isProjectRelevant at h
  rw [if_pos hfound] at h
  cases h

/-- What stands at a path. -/
inductive DiskEntry where
  | file (text : String)
  | unreadable
  | directory
  deriving DecidableEq, Repr

/-- The disk. -/
abbrev Disk := FMap SystemPath DiskEntry

/-- Why a file could not be read. -/
inductive ReadError where
  | notFound | other
  deriving DecidableEq, Repr

/-- Read a file. -/
def readToString (disk : Disk) (p : SystemPath) : Except ReadError String :=
  match disk.lookup p with
  | none => .error .notFound
  | some (.file text) => .ok text
  | some .unreadable => .error .other
  | some .directory => .error .other

/-- Whether a regular file stands at a path. -/
def isFile (disk : Disk) (p : SystemPath) : Bool :=
  match disk.lookup p with
  | some (.file _) => true
  | some .unreadable => true
  | _ => false

/-- The text of a readable file. -/
def diskText (disk : Disk) (p : SystemPath) : Option String :=
  match disk.lookup p with
  | some (.file text) => some text
  | _ => none

/-- Reading gives the text of a readable file. -/
theorem readToString_ok {disk : Disk} {p : SystemPath} {text : String} :
    readToString disk p = .ok text ↔ diskText disk p = some text := by
  unfold readToString diskText
  cases disk.lookup p with
  | none => simp
  | some entry => cases entry <;> simp

end Tyo3.SystemPaths
