import Mathlib.Data.List.Nodup
import Mathlib.Tactic.Common

/-!
# Directory trees

A directory has finitely many distinct names and a node behind each of them.  A node is addressed by
the names on the way to it; the paths of the files of a tree are these addresses, each once.
-/

namespace Etle

/-- A file, a directory, or something else that has a name. -/
inductive DirTree (Name Content : Type) where
  | file (content : Content)
  /-- Only the nodes behind the listed names are there. -/
  | directory (names : List Name) (distinct : names.Nodup) (child : Name → DirTree Name Content)
  | other

namespace DirTree

variable {Name Content : Type}

/-- The paths of the files of a tree. -/
def filePaths : DirTree Name Content → List (List Name)
  | .file _ => [[]]
  | .directory names _ child => names.flatMap fun name => (child name).filePaths.map (name :: ·)
  | .other => []

/-- No file is listed twice. -/
theorem nodup_filePaths (tree : DirTree Name Content) : tree.filePaths.Nodup := by
  induction tree with
  | file content => simp [filePaths]
  | other => simp [filePaths]
  | directory names distinct child ih =>
      rw [filePaths, List.nodup_flatMap]
      constructor
      · intro name _
        exact (ih name).map fun first second same => (List.cons.inj same).2
      · apply distinct.imp
        intro first second apart
        refine List.disjoint_left.mpr ?_
        intro path in_first in_second
        obtain ⟨rest, _, rfl⟩ := List.mem_map.mp in_first
        obtain ⟨other, _, same⟩ := List.mem_map.mp in_second
        exact apart (List.cons.inj same).1.symm

variable [DecidableEq Name]

/-- The node behind a path. -/
def find : DirTree Name Content → List Name → Option (DirTree Name Content)
  | tree, [] => some tree
  | .directory names _ child, name :: rest =>
      if name ∈ names then (child name).find rest else none
  | _, _ :: _ => none

@[simp]
theorem find_nil (tree : DirTree Name Content) : tree.find [] = some tree := by
  cases tree <;> rfl

@[simp]
theorem find_directory_cons (names : List Name) (distinct : names.Nodup)
    (child : Name → DirTree Name Content) (name : Name) (rest : List Name) :
    (directory names distinct child).find (name :: rest) =
      if name ∈ names then (child name).find rest else none := by
  rw [find]

/-- The listed paths are those with a file behind them. -/
theorem mem_filePaths {tree : DirTree Name Content} {path : List Name} :
    path ∈ tree.filePaths ↔ ∃ content, tree.find path = some (.file content) := by
  induction tree generalizing path with
  | file content =>
      cases path with
      | nil => simp [filePaths]
      | cons name rest => simp [filePaths, find]
  | other =>
      cases path with
      | nil => simp [filePaths]
      | cons name rest => simp [filePaths, find]
  | directory names distinct child ih =>
      cases path with
      | nil => simp [filePaths]
      | cons name rest =>
          by_cases listed : name ∈ names
          · simp [filePaths, listed, ih]
          · simp [filePaths, listed]

end DirTree

end Etle
