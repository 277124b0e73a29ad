import Etle.Foundations.Bytes
import Mathlib.Logic.Function.Basic

/-!
# Files behind names

A name refers to a node and a node has a content, so that a file can be renamed while it is open,
and be opened twice under one name.  No node has two names.
-/

namespace Etle

variable {Path : Type}

/-- A directory tree of files without hard links. -/
structure FileSystem (Path : Type) where
  entries : Path → Option Nat
  contents : Nat → Bytes
  /-- Nodes from here on are unused. -/
  next : Nat
  used : ∀ {path node}, entries path = some node → node < next
  single : ∀ {path other node}, entries path = some node → entries other = some node → path = other

/-- Write over a part of a file; a gap before it is filled with zeros. -/
def overwrite (content : Bytes) (offset : Nat) (bytes : Bytes) : Bytes :=
  content.take offset ++ List.replicate (offset - content.length) 0 ++ bytes ++
    content.drop (offset + bytes.length)

theorem overwrite_length (content bytes : Bytes) :
    overwrite content content.length bytes = content ++ bytes := by
  simp [overwrite]

namespace FileSystem

/-- No file at all. -/
def empty : FileSystem Path where
  entries _ := none
  contents _ := []
  next := 0
  used := by simp
  single := by simp

/-- The content of the file with a name. -/
def fileAt (files : FileSystem Path) (path : Path) : Option Bytes :=
  (files.entries path).map files.contents

/-- The name refers to a file. -/
def isThere (files : FileSystem Path) (path : Path) : Bool := (files.entries path).isSome

/-- Replace the content of a node. -/
def setContent (files : FileSystem Path) (node : Nat) (content : Bytes) : FileSystem Path :=
  { files with contents := Function.update files.contents node content }

/-- Write to an open file at the position of its handle. -/
def writeAt (files : FileSystem Path) (node offset : Nat) (bytes : Bytes) : FileSystem Path :=
  files.setContent node (overwrite (files.contents node) offset bytes)

variable {files : FileSystem Path} {path : Path}

theorem fileAt_eq_some {content : Bytes} :
    files.fileAt path = some content ↔
      ∃ node, files.entries path = some node ∧ files.contents node = content := by
  simp [fileAt, Option.map_eq_some_iff]

theorem isThere_eq_isSome (files : FileSystem Path) (path : Path) :
    files.isThere path = (files.fileAt path).isSome := by
  simp [isThere, fileAt]

theorem fileAt_setContent_of_ne {node : Nat} (stored : files.entries path = some node)
    {other : Path} (away : other ≠ path) (content : Bytes) :
    (files.setContent node content).fileAt other = files.fileAt other := by
  unfold fileAt
  cases found : files.entries other with
  | none => simp [setContent, found]
  | some otherNode =>
      have apart : otherNode ≠ node := by
        rintro rfl
        exact away (files.single found stored)
      simp [setContent, found, apart]

@[simp]
theorem entries_writeAt (files : FileSystem Path) (node offset : Nat) (bytes : Bytes) :
    (files.writeAt node offset bytes).entries = files.entries := rfl

/-- Writing at the end of a file appends to it. -/
theorem contents_writeAt {node : Nat} {content : Bytes} (stored : files.contents node = content)
    (bytes : Bytes) :
    (files.writeAt node content.length bytes).contents node = content ++ bytes := by
  simp [writeAt, setContent, stored, overwrite_length]

variable [DecidableEq Path]

/-- A new and empty file under a name that refers to none. -/
def addFile (files : FileSystem Path) (path : Path) : FileSystem Path where
  entries := Function.update files.entries path (some files.next)
  contents := Function.update files.contents files.next []
  next := files.next + 1
  used := by
    intro other node found
    by_cases same : other = path
    · subst same
      obtain rfl : files.next = node := by simpa using found
      exact Nat.lt_succ_self _
    · rw [Function.update_of_ne same] at found
      exact Nat.lt_succ_of_lt (files.used found)
  single := by
    intro first second node found_first found_second
    by_cases first_same : first = path
    · by_cases second_same : second = path
      · rw [first_same, second_same]
      · subst first_same
        obtain rfl : files.next = node := by simpa using found_first
        rw [Function.update_of_ne second_same] at found_second
        exact absurd (files.used found_second) (Nat.lt_irrefl _)
    · rw [Function.update_of_ne first_same] at found_first
      by_cases second_same : second = path
      · subst second_same
        obtain rfl : files.next = node := by simpa using found_second
        exact absurd (files.used found_first) (Nat.lt_irrefl _)
      · rw [Function.update_of_ne second_same] at found_second
        exact files.single found_first found_second

/-- Open a file for writing, truncating one that is there. -/
def create (files : FileSystem Path) (path : Path) : FileSystem Path × Nat :=
  match files.entries path with
  | some node => (files.setContent node [], node)
  | none => (files.addFile path, files.next)

/-- Take a name away; its content is lost. -/
def remove (files : FileSystem Path) (path : Path) : FileSystem Path where
  entries := Function.update files.entries path none
  contents := files.contents
  next := files.next
  used := by
    intro other node found
    by_cases same : other = path
    · simp [same] at found
    · exact files.used (by rwa [Function.update_of_ne same] at found)
  single := by
    intro first second node found_first found_second
    by_cases first_same : first = path
    · simp [first_same] at found_first
    · by_cases second_same : second = path
      · simp [second_same] at found_second
      · rw [Function.update_of_ne first_same] at found_first
        rw [Function.update_of_ne second_same] at found_second
        exact files.single found_first found_second

/-- The entries after the node of one name has got another. -/
def movedEntries (entries : Path → Option Nat) (source target : Path) (node : Nat) :
    Path → Option Nat :=
  Function.update (Function.update entries source none) target (some node)

theorem movedEntries_eq_some {entries : Path → Option Nat} {source target path : Path}
    {node other : Nat} (found : movedEntries entries source target node path = some other) :
    (path = target ∧ node = other) ∨ (path ≠ source ∧ entries path = some other) := by
  by_cases at_target : path = target
  · exact .inl ⟨at_target, by simpa [movedEntries, at_target] using found⟩
  · rw [movedEntries, Function.update_of_ne at_target] at found
    by_cases at_source : path = source
    · simp [at_source] at found
    · exact .inr ⟨at_source, by rwa [Function.update_of_ne at_source] at found⟩

/-- Give a node of one name another name, which loses the node it referred to. -/
def moveNode (files : FileSystem Path) (source target : Path) {node : Nat}
    (stored : files.entries source = some node) : FileSystem Path where
  entries := movedEntries files.entries source target node
  contents := files.contents
  next := files.next
  used := by
    intro path other found
    obtain ⟨-, rfl⟩ | ⟨-, kept⟩ := movedEntries_eq_some found
    · exact files.used stored
    · exact files.used kept
  single := by
    intro first second other found_first found_second
    obtain ⟨rfl, rfl⟩ | ⟨first_away, first_kept⟩ := movedEntries_eq_some found_first
    · obtain ⟨rfl, -⟩ | ⟨second_away, second_kept⟩ := movedEntries_eq_some found_second
      · rfl
      · exact absurd (files.single second_kept stored) second_away
    · obtain ⟨rfl, rfl⟩ | ⟨-, second_kept⟩ := movedEntries_eq_some found_second
      · exact absurd (files.single first_kept stored) first_away
      · exact files.single first_kept second_kept

/-- Give a file another name; a missing file cannot be renamed. -/
def rename (files : FileSystem Path) (source target : Path) : Option (FileSystem Path) :=
  match stored : files.entries source with
  | none => none
  | some _ => some (if source = target then files else files.moveNode source target stored)

/-- A file that was opened for writing is empty. -/
theorem entries_create (files : FileSystem Path) (path : Path) :
    (files.create path).1.entries path = some (files.create path).2 ∧
      (files.create path).1.contents (files.create path).2 = [] := by
  unfold create
  split
  · rename_i node stored
    exact ⟨stored, by simp [setContent]⟩
  · exact ⟨by simp [addFile], by simp [addFile]⟩

/-- Opening a file leaves the others alone. -/
theorem fileAt_create_of_ne {other : Path} (away : other ≠ path) :
    (files.create path).1.fileAt other = files.fileAt other := by
  unfold create
  split
  · rename_i node stored
    exact fileAt_setContent_of_ne stored away []
  · unfold fileAt
    cases found : files.entries other with
    | none => simp [addFile, away, found]
    | some node =>
        have apart : node ≠ files.next := Nat.ne_of_lt (files.used found)
        simp [addFile, away, found, apart]

theorem fileAt_remove (files : FileSystem Path) (path other : Path) :
    (files.remove path).fileAt other = if other = path then none else files.fileAt other := by
  by_cases same : other = path
  · simp [remove, fileAt, same]
  · simp [remove, fileAt, same]

/-- The file behind a name has just the bytes that were written to its beginning when it was new. -/
theorem fileAt_writeAt_create (files : FileSystem Path) (path other : Path) (bytes : Bytes) :
    ((files.create path).1.writeAt (files.create path).2 0 bytes).fileAt other =
      if other = path then some bytes else files.fileAt other := by
  obtain ⟨stored, empty⟩ := files.entries_create path
  by_cases same : other = path
  · subst same
    rw [if_pos rfl, fileAt_eq_some]
    exact ⟨_, stored, by simpa using contents_writeAt empty bytes⟩
  · rw [if_neg same, writeAt, fileAt_setContent_of_ne stored same, fileAt_create_of_ne same]

theorem exists_rename {source : Path} {content : Bytes}
    (stored : files.fileAt source = some content) (target : Path) :
    ∃ after, files.rename source target = some after := by
  obtain ⟨node, found, -⟩ := fileAt_eq_some.mp stored
  unfold rename
  split
  next missing => rw [missing] at found; cases found
  next => exact ⟨_, rfl⟩

/-- Renaming moves the file and leaves the others alone. -/
theorem fileAt_rename {source target : Path} {after : FileSystem Path}
    (renamed : files.rename source target = some after) (apart : source ≠ target) :
    after.fileAt target = files.fileAt source ∧
      ∀ other, other ≠ source → other ≠ target → after.fileAt other = files.fileAt other := by
  unfold rename at renamed
  split at renamed
  · cases renamed
  · rename_i node stored
    obtain rfl : files.moveNode source target stored = after := by simpa [apart] using renamed
    refine ⟨by simp [fileAt, moveNode, movedEntries, stored], ?_⟩
    intro other from_source from_target
    simp [fileAt, moveNode, movedEntries, from_source, from_target]

/-- Renaming a file leaves nothing under its old name. -/
theorem fileAt_rename_source {source target : Path} {after : FileSystem Path}
    (renamed : files.rename source target = some after) (apart : source ≠ target) :
    after.fileAt source = none := by
  unfold rename at renamed
  split at renamed
  · cases renamed
  · rename_i node stored
    obtain rfl : files.moveNode source target stored = after := by simpa [apart] using renamed
    simp [fileAt, moveNode, movedEntries, apart]

end FileSystem

end Etle
