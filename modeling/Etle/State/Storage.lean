import Etle.Foundations.FileSystem
import Etle.Foundations.Outcome
import Etle.State.Codec

/-!
# Replacing the files of a share

A file is replaced by writing a temporary file beside it and renaming this one.  Every step can
fail; what the call leaves behind then depends on the platform.
-/

namespace Etle

/-! ## Paths -/

/-- A file name, which need not be text. -/
inductive OsString where
  | text (value : String)
  | raw (bytes : Bytes)
  deriving DecidableEq

def OsString.toStr : OsString → Option String
  | text value => some value
  | raw _ => none

/-- The components of a path; `drive` is the one that a path has in front on Windows. -/
inductive PathComponent where
  | drive (name : OsString)
  | rootDir
  | curDir
  | parentDir
  | normal (name : OsString)
  deriving DecidableEq

/-- A path by its components. -/
abbrev FilePath := List PathComponent

namespace FilePath

def parent (path : FilePath) : Option FilePath :=
  match path.getLast? with
  | none | some (.drive _) | some .rootDir => none
  | some .curDir | some .parentDir | some (.normal _) => some path.dropLast

def fileName (path : FilePath) : Option OsString :=
  match path.getLast? with
  | some (.normal name) => some name
  | _ => none

end FilePath

/-! ## The operating system -/

inductive Platform where
  | unix
  | windows
  deriving DecidableEq

/-- What the operating system makes of one call: the process, the nanoseconds since the epoch, and
the steps that fail.  A failing write has written some of the bytes. -/
structure WriteCall where
  platform : Platform
  processId : Nat
  now : Option Nat
  createDirAll : Option ErrorKind
  createNew : Option ErrorKind
  writeAll : Option (Nat × ErrorKind)
  syncAll : Option ErrorKind
  /-- Looking up the old file fails. -/
  metadata : Option ErrorKind
  removeOld : Option ErrorKind
  rename : Option ErrorKind

/-- A computation on the files. -/
abbrev OnFiles := EStateM ErrorKind (FileSystem FilePath)

namespace OnFiles

/-- A step that does nothing when it fails. -/
def attempt (failure : Option ErrorKind) : OnFiles Unit :=
  match failure with
  | none => pure ()
  | some kind => throw kind

/-- Open a file that must not be there yet. -/
def createNew (call : WriteCall) (path : FilePath) : OnFiles Nat := do
  if (← get).isThere path then
    throw .other
  attempt call.createNew
  modifyGet fun files => ((files.create path).2, (files.create path).1)

def writeAll (call : WriteCall) (node : Nat) (bytes : Bytes) : OnFiles Unit := do
  match call.writeAll with
  | none => modify fun files => files.writeAt node 0 bytes
  | some (written, kind) =>
      modify fun files => files.writeAt node 0 (bytes.take written)
      throw kind

def removeFile (path : FilePath) : OnFiles Unit := modify fun files => files.remove path

def renameFile (source target : FilePath) : OnFiles Unit := do
  match (← get).rename source target with
  | none => throw .notFound
  | some files => set files

end OnFiles

/-! ## The source -/

/-- The name of the temporary file beside a file. -/
def tmpName (call : WriteCall) (path : FilePath) : String :=
  "." ++ (path.fileName.bind OsString.toStr).getD "etle-write" ++ "." ++ toString call.processId ++
    "." ++ toString (call.now.getD 0) ++ ".tmp"

def tmpPath (call : WriteCall) (path : FilePath) : FilePath :=
  path.parent.getD [.curDir] ++ [.normal (.text (tmpName call path))]

/-- Write the temporary file; one that could not be written is removed. -/
def writeTmpFile (call : WriteCall) (tmp : FilePath) (bytes : Bytes) : OnFiles Unit := do
  OnFiles.attempt call.createDirAll
  let node ← OnFiles.createNew call tmp
  try
    OnFiles.writeAll call node bytes
    OnFiles.attempt call.syncAll
  catch error =>
    OnFiles.removeFile tmp
    throw error

/-- Give the temporary file its final name; one that keeps its own is removed. -/
def moveTmpFile (call : WriteCall) (tmp path : FilePath) : OnFiles Unit := do
  try
    OnFiles.attempt call.rename
    OnFiles.renameFile tmp path
  catch error =>
    OnFiles.removeFile tmp
    throw error

/-- Replace a file through a temporary one. -/
def writeFileAtomic (call : WriteCall) (path : FilePath) (bytes : Bytes) : OnFiles Unit := do
  let tmp := tmpPath call path
  writeTmpFile call tmp bytes
  if call.platform = .windows && (call.metadata.isNone && (← get).isThere path) then
    -- This failure leaves the temporary file behind.
    OnFiles.attempt call.removeOld
    OnFiles.removeFile path
  moveTmpFile call tmp path

/-! ## The temporary file -/

theorem tmpPath_ne (call : WriteCall) (path : FilePath) : tmpPath call path ≠ path := by
  intro same
  have last : path.getLast? = some (.normal (.text (tmpName call path))) := by
    conv_lhs => rw [← same]
    exact List.getLast?_concat
  have name : path.fileName = some (.text (tmpName call path)) := by rw [FilePath.fileName, last]
  have longer : tmpName call path = "." ++ tmpName call path ++ "." ++ toString call.processId ++
      "." ++ toString (call.now.getD 0) ++ ".tmp" := by
    conv_lhs => rw [tmpName, name]
    rfl
  have lengths := congrArg String.length longer
  simp only [String.length_append] at lengths
  have dot : ".".length = 1 := rfl
  omega

theorem run_createNew (call : WriteCall) (path : FilePath) (files : FileSystem FilePath) :
    (OnFiles.createNew call path).run files =
      if files.isThere path then .error .other files
      else match call.createNew with
        | some kind => .error kind files
        | none => .ok (files.create path).2 (files.create path).1 := by
  simp only [OnFiles.createNew, EStateM.run_bind, EStateM.run_get]
  split
  next there => simp
  next absent => cases call.createNew <;> rfl

theorem fileAt_eq_none_of_absent {files : FileSystem FilePath} {path : FilePath}
    (absent : files.isThere path = false) : files.fileAt path = none := by
  simpa [FileSystem.isThere_eq_isSome] using absent

/-- Removing a file that was not there before leaves nothing of it. -/
theorem fileAt_remove_written {files : FileSystem FilePath} {tmp : FilePath}
    (absent : files.isThere tmp = false) (bytes : Bytes) (other : FilePath) :
    (((files.create tmp).1.writeAt (files.create tmp).2 0 bytes).remove tmp).fileAt other =
      files.fileAt other := by
  rw [FileSystem.fileAt_remove, FileSystem.fileAt_writeAt_create]
  split
  next same => rw [same, fileAt_eq_none_of_absent absent]
  next away => rfl

/-- Every step up to the temporary file succeeds. -/
def WriteCall.Stages (call : WriteCall) (files : FileSystem FilePath) (tmp : FilePath) : Prop :=
  call.createDirAll = none ∧ files.isThere tmp = false ∧ call.createNew = none ∧
    call.writeAll = none ∧ call.syncAll = none

/-- Either the temporary file is written, or nothing has changed. -/
theorem writeTmpFile_cases (call : WriteCall) (tmp : FilePath) (bytes : Bytes)
    (files : FileSystem FilePath) :
    (call.Stages files tmp ∧ ∃ staged, (writeTmpFile call tmp bytes).run files = .ok () staged ∧
        ∀ other, staged.fileAt other = if other = tmp then some bytes else files.fileAt other) ∨
      (¬call.Stages files tmp ∧ ∃ kind left,
        (writeTmpFile call tmp bytes).run files = .error kind left ∧
          ∀ other, left.fileAt other = files.fileAt other) := by
  simp only [writeTmpFile, EStateM.run_bind, WriteCall.Stages]
  cases dirs : call.createDirAll with
  | some kind => exact .inr ⟨by simp, kind, files, rfl, fun _ => rfl⟩
  | none =>
      simp only [OnFiles.attempt, EStateM.run_pure, run_createNew]
      cases there : files.isThere tmp with
      | true => exact .inr ⟨by simp, .other, files, rfl, fun _ => rfl⟩
      | false =>
          cases opened : call.createNew with
          | some kind => exact .inr ⟨by simp, kind, files, rfl, fun _ => rfl⟩
          | none =>
              simp only [Bool.false_eq_true, if_false, EStateM.run_tryCatch_eq, EStateM.run_bind]
              cases written : call.writeAll with
              | some failure =>
                  obtain ⟨count, kind⟩ := failure
                  refine .inr ⟨by simp, kind, _, ?_,
                    fileAt_remove_written there (bytes.take count)⟩
                  simp only [OnFiles.writeAll, written]
                  rfl
              | none =>
                  cases synced : call.syncAll with
                  | some kind =>
                      refine .inr ⟨by simp, kind, _, ?_, fileAt_remove_written there bytes⟩
                      simp only [OnFiles.writeAll, written]
                      rfl
                  | none =>
                      refine .inl ⟨by simp, _, ?_,
                        fun other => files.fileAt_writeAt_create tmp other bytes⟩
                      simp only [OnFiles.writeAll, written]
                      rfl

/-! ## The replaced file -/

/-- The file has the new bytes after a success; after a failure it has its old content, and the
temporary name refers to what it did before. -/
def AllOrNothing (before : FileSystem FilePath) (path tmp : FilePath) (bytes : Bytes) :
    EStateM.Result ErrorKind (FileSystem FilePath) Unit → Prop
  | .ok _ after => after.fileAt path = some bytes
  | .error _ after =>
      after.fileAt path = before.fileAt path ∧ after.fileAt tmp = before.fileAt tmp

theorem run_moveTmpFile_of_failure {call : WriteCall} {kind : ErrorKind}
    (fails : call.rename = some kind) (tmp path : FilePath) (files : FileSystem FilePath) :
    (moveTmpFile call tmp path).run files = .error kind (files.remove tmp) := by
  rw [moveTmpFile, EStateM.run_tryCatch_eq, fails]
  rfl

theorem run_moveTmpFile_of_success {call : WriteCall} (succeeds : call.rename = none)
    {tmp path : FilePath} (apart : tmp ≠ path) {files : FileSystem FilePath} {bytes : Bytes}
    (staged : files.fileAt tmp = some bytes) :
    ∃ after, (moveTmpFile call tmp path).run files = .ok () after ∧
      ∀ other, after.fileAt other =
        if other = path then some bytes else (files.remove tmp).fileAt other := by
  obtain ⟨after, renamed⟩ := FileSystem.exists_rename staged path
  obtain ⟨moved, kept⟩ := FileSystem.fileAt_rename renamed apart
  refine ⟨after, ?_, fun other => ?_⟩
  · rw [moveTmpFile, EStateM.run_tryCatch_eq, succeeds]
    simp [OnFiles.attempt, OnFiles.renameFile, EStateM.run_bind, renamed]
  · by_cases at_path : other = path
    · rw [if_pos at_path, at_path, moved, staged]
    · rw [if_neg at_path, FileSystem.fileAt_remove]
      by_cases at_tmp : other = tmp
      · rw [if_pos at_tmp, at_tmp, FileSystem.fileAt_rename_source renamed apart]
      · rw [if_neg at_tmp, kept other at_tmp at_path]

/-- Moving the temporary file over a file is all or nothing. -/
theorem allOrNothing_moveTmpFile (call : WriteCall) {tmp path : FilePath} (apart : tmp ≠ path)
    {before staged : FileSystem FilePath} {bytes : Bytes} (absent : before.fileAt tmp = none)
    (written : staged.fileAt tmp = some bytes) (kept : staged.fileAt path = before.fileAt path) :
    AllOrNothing before path tmp bytes ((moveTmpFile call tmp path).run staged) := by
  cases fails : call.rename with
  | some kind =>
      rw [run_moveTmpFile_of_failure fails]
      refine ⟨?_, ?_⟩
      · rw [FileSystem.fileAt_remove, if_neg apart.symm, kept]
      · rw [FileSystem.fileAt_remove, if_pos rfl, absent]
  | none =>
      obtain ⟨after, ran, replaced⟩ := run_moveTmpFile_of_success fails apart written
      rw [ran]
      exact (replaced path).trans (if_pos rfl)

/-- Once the old file is removed, moving the temporary file must not fail. -/
theorem allOrNothing_after_removal_iff (call : WriteCall) {tmp path : FilePath} (apart : tmp ≠ path)
    {before staged : FileSystem FilePath} {bytes : Bytes} (old : before.isThere path = true)
    (written : staged.fileAt tmp = some bytes) :
    AllOrNothing before path tmp bytes ((moveTmpFile call tmp path).run (staged.remove path)) ↔
      call.rename = none := by
  have still : (staged.remove path).fileAt tmp = some bytes := by
    rw [FileSystem.fileAt_remove, if_neg apart, written]
  cases fails : call.rename with
  | some kind =>
      rw [run_moveTmpFile_of_failure fails]
      refine iff_of_false ?_ nofun
      rintro ⟨lost, -⟩
      rw [FileSystem.fileAt_remove, if_neg apart.symm, FileSystem.fileAt_remove, if_pos rfl] at lost
      simp [FileSystem.isThere_eq_isSome, ← lost] at old
  | none =>
      obtain ⟨after, ran, replaced⟩ := run_moveTmpFile_of_success fails apart still
      rw [ran]
      exact iff_of_true ((replaced path).trans (if_pos rfl)) rfl

/-- Replacing a file is all or nothing exactly when it is not a removal of the old file on Windows
that fails or that a failing rename comes after. -/
theorem replaced_all_or_nothing_iff (call : WriteCall) (path : FilePath) (bytes : Bytes)
    (files : FileSystem FilePath) :
    AllOrNothing files path (tmpPath call path) bytes
        ((writeFileAtomic call path bytes).run files) ↔
      (call.platform = .windows → call.metadata = none → files.isThere path = true →
        call.Stages files (tmpPath call path) → call.removeOld = none ∧ call.rename = none) := by
  have apart := tmpPath_ne call path
  rw [writeFileAtomic, EStateM.run_bind]
  rcases writeTmpFile_cases call (tmpPath call path) bytes files with
    ⟨stages, staged, ran, written⟩ | ⟨stuck, kind, left, ran, kept⟩
  · have absent := fileAt_eq_none_of_absent stages.2.1
    have tmp_written : staged.fileAt (tmpPath call path) = some bytes := by rw [written, if_pos rfl]
    have old_kept : staged.fileAt path = files.fileAt path := by rw [written, if_neg apart.symm]
    have same_there : staged.isThere path = files.isThere path := by
      rw [FileSystem.isThere_eq_isSome, FileSystem.isThere_eq_isSome, old_kept]
    rw [ran]
    simp only [EStateM.run_bind, EStateM.run_get, same_there]
    split
    next removes =>
        obtain ⟨windows, known, old⟩ : call.platform = .windows ∧ call.metadata = none ∧
            files.isThere path = true := by simpa using removes
        simp only [windows, known, old, stages, forall_true_left]
        cases fails : call.removeOld with
        | some kind =>
            refine iff_of_false ?_ (by simp)
            rintro ⟨-, left⟩
            rw [absent] at left
            exact absurd (tmp_written.symm.trans left) nofun
        | none =>
            rw [eq_self_iff_true, true_and]
            exact allOrNothing_after_removal_iff call apart old tmp_written
    next replaces =>
        refine iff_of_true (allOrNothing_moveTmpFile call apart absent tmp_written old_kept) ?_
        intro windows known old
        exact absurd (by simp [windows, known, old]) replaces
  · rw [ran]
    refine iff_of_true ⟨kept path, kept _⟩ ?_
    intro _ _ _ stages
    exact absurd stages stuck

/-- On Unix a file is replaced and every other file is left alone, or nothing has changed. -/
theorem writeFileAtomic_cases {call : WriteCall} (unix : call.platform = .unix) (path : FilePath)
    (bytes : Bytes) (files : FileSystem FilePath) :
    (∃ after, (writeFileAtomic call path bytes).run files = .ok () after ∧
        ∀ other, after.fileAt other = if other = path then some bytes else files.fileAt other) ∨
      ∃ kind left, (writeFileAtomic call path bytes).run files = .error kind left ∧
        ∀ other, left.fileAt other = files.fileAt other := by
  have apart := tmpPath_ne call path
  rw [writeFileAtomic, EStateM.run_bind]
  rcases writeTmpFile_cases call (tmpPath call path) bytes files with
    ⟨stages, staged, ran, written⟩ | ⟨-, kind, left, ran, kept⟩
  · have unstaged (other : FilePath) :
        (staged.remove (tmpPath call path)).fileAt other = files.fileAt other := by
      rw [FileSystem.fileAt_remove, written]
      split
      next same => rw [same, fileAt_eq_none_of_absent stages.2.1]
      next => rfl
    rw [ran]
    simp only [EStateM.run_bind, EStateM.run_get, unix, reduceCtorEq, decide_false,
      Bool.false_and, Bool.false_eq_true, if_false]
    cases fails : call.rename with
    | some kind =>
        exact .inr ⟨kind, _, run_moveTmpFile_of_failure fails _ _ _, unstaged⟩
    | none =>
        obtain ⟨after, moved, replaced⟩ :=
          run_moveTmpFile_of_success fails apart ((written _).trans (if_pos rfl))
        refine .inl ⟨after, moved, fun other => ?_⟩
        rw [replaced, unstaged]
  · rw [ran]
    exact .inr ⟨kind, left, rfl, kept⟩

/-- Writing a secret on Windows, with the steps that fail. -/
def windowsWrite (removeOld rename : Option ErrorKind) : WriteCall where
  platform := .windows
  processId := 4242
  now := some 1700000000
  createDirAll := none
  createNew := none
  writeAll := none
  syncAll := none
  metadata := none
  removeOld
  rename

def secretPath : FilePath := [.normal (.text "share"), .normal (.text "secret.etlekey")]

/-- The secret of a share is stored. -/
def storedSecret : FileSystem FilePath := (FileSystem.empty.create secretPath).1.writeAt 0 0 [7]

/-- If the rename fails after the old file was removed, the old content is lost; if the removal
fails, the temporary file stays. -/
theorem old_secret_lost :
    storedSecret.fileAt secretPath = some [7] ∧
      (∃ left, (writeFileAtomic (windowsWrite none (some .other)) secretPath [9]).run storedSecret =
          .error .other left ∧ left.fileAt secretPath = none) ∧
      (∃ left, (writeFileAtomic (windowsWrite (some .other) none) secretPath [9]).run storedSecret =
          .error .other left ∧
        storedSecret.fileAt (tmpPath (windowsWrite (some .other) none) secretPath) = none ∧
        left.fileAt (tmpPath (windowsWrite (some .other) none) secretPath) = some [9]) ∧
      ¬∀ call path bytes files, AllOrNothing files path (tmpPath call path) bytes
        ((writeFileAtomic call path bytes).run files) := by
  have lost : ∃ left,
      (writeFileAtomic (windowsWrite none (some .other)) secretPath [9]).run storedSecret =
        .error .other left ∧ left.fileAt secretPath = none := ⟨_, rfl, rfl⟩
  refine ⟨rfl, lost, ⟨_, rfl, rfl, rfl⟩, ?_⟩
  intro always
  obtain ⟨left, ran, gone⟩ := lost
  have kept := always (windowsWrite none (some .other)) secretPath [9] storedSecret
  rw [ran] at kept
  exact absurd (kept.1.symm.trans gone) nofun

end Etle
