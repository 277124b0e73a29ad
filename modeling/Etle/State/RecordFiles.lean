import Etle.State.Listing
import Etle.State.Storage

/-!
# The files of a share

Every record and every chunk is a file that is replaced as a whole.  On Unix such a write does to
the files what the library does to its shares, or it leaves every file as it was.
-/

namespace Etle

open EStateM (Refines inOrder refines_inOrder stops)

/-! ## Paths -/

/-- The files of a share that the library replaces. -/
inductive ShareFile where
  | descriptor
  | secret
  | progress
  | state
  | chunk (index : UInt32)
  deriving DecidableEq

/-- `{index:06}` -/
def sixDigits (index : UInt32) : String :=
  let digits := Nat.toDigits 10 index.toNat
  String.ofList (List.replicate (6 - digits.length) '0' ++ digits)

/-- Where a file is in the directory of its share. -/
def ShareFile.names : ShareFile → PathBuf
  | .descriptor => ["descriptor.etle"]
  | .secret => ["secret.etlekey"]
  | .progress => ["progress.bin"]
  | .state => ["state.bin"]
  | .chunk index => ["chunks", sixDigits index ++ ".etle"]

namespace LibraryPaths

def shareDir (paths : LibraryPaths) : PathBuf :=
  paths.root ++ [".etle", "library", paths.shareId.display]

/-- The path of a file of the share; a root is given by its names. -/
def filePath (paths : LibraryPaths) (file : ShareFile) : FilePath :=
  (paths.shareDir ++ file.names).map fun name => .normal (.text name)

def descriptorPath (paths : LibraryPaths) : FilePath := paths.filePath .descriptor

def secretPath (paths : LibraryPaths) : FilePath := paths.filePath .secret

def progressPath (paths : LibraryPaths) : FilePath := paths.filePath .progress

def statePath (paths : LibraryPaths) : FilePath := paths.filePath .state

def chunkPath (paths : LibraryPaths) (index : UInt32) : FilePath := paths.filePath (.chunk index)

end LibraryPaths

theorem sixDigits_inj {index other : UInt32} (same : sixDigits index = sixDigits other) :
    index = other := by
  have value (index : UInt32) : Nat.ofDigitChars 10 (sixDigits index).toList 0 = index.toNat := by
    rw [sixDigits, String.toList_ofList, Nat.ofDigitChars_append, Nat.ofDigitChars_replicate_zero,
      Nat.mul_zero, Nat.ofDigitChars_ten_toDigits]
  apply UInt32.toNat.inj
  rw [← value index, ← value other, same]

theorem display_inj {shareId other : ShareId} (same : shareId.display = other.display) :
    shareId = other := by
  apply Option.some.inj
  rw [← fromStr_display shareId, ← fromStr_display other, same]

theorem display_ne_chunks (shareId : ShareId) : shareId.display ≠ "chunks" := by
  intro same
  have unread : ShareId.fromStr "chunks" = none := by decide
  rw [← same, fromStr_display] at unread
  cases unread

/-- A record is in the directory of its share, and a chunk in the directory of the chunks. -/
theorem ShareFile.names_cases (file : ShareFile) :
    (∃ name, file.names = [name]) ∨ ∃ chunk, file.names = ["chunks", chunk] := by
  cases file with
  | chunk index => exact .inr ⟨_, rfl⟩
  | descriptor | secret | progress | state => exact .inl ⟨_, rfl⟩

theorem ShareFile.names_inj {file other : ShareFile} (same : file.names = other.names) :
    file = other := by
  cases file with
  | chunk index =>
      cases other with
      | chunk another =>
          have digits : sixDigits index = sixDigits another := by simpa [names] using same
          rw [sixDigits_inj digits]
      | descriptor | secret | progress | state => simp [names] at same
  | descriptor | secret | progress | state => cases other <;> simp_all [names]

theorem shareDir_inj {paths other : LibraryPaths} (same : paths.shareDir = other.shareDir) :
    paths = other := by
  obtain ⟨root, shareId⟩ := paths
  obtain ⟨root', shareId'⟩ := other
  obtain ⟨roots, ends⟩ := List.append_inj' same rfl
  have displays : shareId.display = shareId'.display := by simpa using ends
  rw [show root = root' from roots, display_inj displays]

/-- The chunks are one directory deeper than the records. -/
theorem record_ne_chunk {paths other : LibraryPaths} {name chunk : String} :
    paths.shareDir ++ [name] ≠ other.shareDir ++ ["chunks", chunk] := by
  intro same
  have split : other.shareDir ++ ["chunks", chunk] = (other.shareDir ++ ["chunks"]) ++ [chunk] := by
    simp
  rw [split] at same
  have dirs := (List.append_inj' same rfl).1
  have deeper : paths.shareDir =
      (paths.root ++ [".etle", "library"]) ++ [paths.shareId.display] := by
    simp [LibraryPaths.shareDir]
  rw [deeper] at dirs
  exact display_ne_chunks _ (List.cons.inj (List.append_inj' dirs rfl).2).1

/-- Two files are at one path only if they are the same file of the same share. -/
theorem filePath_inj {paths other : LibraryPaths} {file another : ShareFile}
    (same : paths.filePath file = other.filePath another) : paths = other ∧ file = another := by
  have names : paths.shareDir ++ file.names = other.shareDir ++ another.names := by
    refine List.map_injective_iff.mpr ?_ same
    intro left right equal
    simpa using equal
  have aligned : file.names.length = another.names.length := by
    rcases file.names_cases with ⟨name, here⟩ | ⟨chunk, here⟩ <;>
      rcases another.names_cases with ⟨name', there⟩ | ⟨chunk', there⟩ <;>
      rw [here, there] at names ⊢
    · rfl
    · exact absurd names record_ne_chunk
    · exact absurd names.symm record_ne_chunk
    · rfl
  obtain ⟨dirs, files⟩ := List.append_inj' names aligned
  exact ⟨shareDir_inj dirs, ShareFile.names_inj files⟩

/-! ## The source -/

/-- The encodings of the records. -/
structure FileBincode where
  descriptor : Bincode EtleDescriptor
  secret : Bincode EtleSecret
  records : RecordBincode

/-- A write of one file: making its directory fails or not, and the replacement. -/
structure FileCall where
  createDirAll : Option ErrorKind
  replace : WriteCall

/-- A computation on the files of all shares. -/
abbrev OnShareFiles := EStateM FileError (FileSystem FilePath)

/-- The failures of the file system are failures of the share. -/
def onFiles {α : Type} (inner : OnFiles α) : OnShareFiles α :=
  EStateM.zoom id (fun files _ => files) .io inner

/-- Make a directory and replace a file in it. -/
def replaceFile (call : FileCall) (path : FilePath) (encoded : Option Bytes) :
    OnShareFiles Unit := do
  onFiles (OnFiles.attempt call.createDirAll)
  match encoded with
  | none => throw .encode
  | some bytes => onFiles (writeFileAtomic call.replace path bytes)

/-- Replace a record that belongs to its share. -/
def replaceRecord (call : FileCall) (paths : LibraryPaths) (owner : ShareId) (path : FilePath)
    (encoded : Option Bytes) : OnShareFiles Unit := do
  EStateM.liftExcept id (ensureShareId paths.shareId owner)
  replaceFile call path encoded

namespace OnShareFiles

variable (bincode : FileBincode) (call : FileCall) (paths : LibraryPaths)

def writeDescriptor (descriptor : EtleDescriptor) : OnShareFiles Unit :=
  replaceRecord call paths descriptor.shareId paths.descriptorPath
    (bincode.descriptor.encodeToVec descriptor)

def writeSecret (secret : EtleSecret) : OnShareFiles Unit :=
  replaceRecord call paths secret.shareId paths.secretPath (bincode.secret.encodeToVec secret)

def writeProgress (progress : DownloadProgress) : OnShareFiles Unit :=
  replaceRecord call paths progress.shareId paths.progressPath
    (encodeProgress bincode.records progress)

def writeState (state : ShareState) : OnShareFiles Unit :=
  replaceRecord call paths state.shareId paths.statePath (encodeState bincode.records state)

def writeChunk (chunk : EncryptedChunk) : OnShareFiles Unit :=
  replaceFile call (paths.chunkPath chunk.index) (some chunk.data)

end OnShareFiles

/-! ## What the files show -/

/-- The record that the content of a file is. -/
def storedOf {α : Type} (decode : Bytes → Except DecodeError α) : Option Bytes → Stored α
  | none => .missing
  | some bytes =>
      match decode bytes with
      | .ok record => .value record
      | .error _ => .undecodable

/-- The files of a share hold its records and its chunks. -/
structure ShareDir.IsShownBy (bincode : FileBincode) (content : ShareFile → Option Bytes)
    (dir : ShareDir) : Prop where
  descriptor : dir.descriptor =
    storedOf (decodeExact bincode.descriptor · "descriptor") (content .descriptor)
  secret : dir.secret = storedOf (decodeExact bincode.secret · "secret") (content .secret)
  progress : dir.progress = storedOf (decodeProgress bincode.records) (content .progress)
  state : dir.state = storedOf (decodeState bincode.records) (content .state)
  chunks : ∀ index, dir.chunks (.chunk index) = content (.chunk index)

/-- The files of every share hold its records and its chunks. -/
def ShowsShares (bincode : FileBincode) (files : FileSystem FilePath) (disk : Disk) : Prop :=
  ∀ paths, (disk paths).IsShownBy bincode fun file => files.fileAt (paths.filePath file)

section

variable {bincode : FileBincode} {call : FileCall} {paths : LibraryPaths}

theorem ShowsShares.of_same {files left : FileSystem FilePath} {disk : Disk}
    (shows : ShowsShares bincode files disk) (same : ∀ path, left.fileAt path = files.fileAt path) :
    ShowsShares bincode left disk := by
  intro paths
  simpa only [same] using shows paths

/-- Replacing one file of a share changes what the files show of this share, and of no other. -/
theorem ShowsShares.of_replaced {files after : FileSystem FilePath} {disk : Disk}
    {file : ShareFile} {bytes : Bytes} {change : ShareDir → ShareDir}
    (shows : ShowsShares bincode files disk)
    (replaced : ∀ path, after.fileAt path =
      if path = paths.filePath file then some bytes else files.fileAt path)
    (changed : ∀ content dir, ShareDir.IsShownBy bincode content dir →
      ShareDir.IsShownBy bincode (Function.update content file (some bytes)) (change dir)) :
    ShowsShares bincode after (Function.update disk paths (change (disk paths))) := by
  intro other
  by_cases here : other = paths
  · subst here
    have content : (fun another => after.fileAt (other.filePath another)) =
        Function.update (fun another => files.fileAt (other.filePath another)) file
          (some bytes) := by
      funext another
      rw [replaced]
      by_cases same : another = file
      · rw [same, if_pos rfl, Function.update_self]
      · rw [if_neg fun equal => same (filePath_inj equal).2, Function.update_of_ne same]
    rw [content, Function.update_self]
    exact changed _ _ (shows other)
  · have content : (fun another => after.fileAt (other.filePath another)) =
        fun another => files.fileAt (other.filePath another) := by
      funext another
      rw [replaced, if_neg fun equal => here (filePath_inj equal).1]
    rw [content, Function.update_of_ne here]
    exact shows other

theorem run_onFiles_ok {inner : OnFiles Unit} {files after : FileSystem FilePath}
    (ran : inner.run files = .ok () after) : (onFiles inner).run files = .ok () after :=
  EStateM.run_zoom_eq_ok.mpr ⟨after, ran, rfl⟩

theorem run_onFiles_error {inner : OnFiles Unit} {files left : FileSystem FilePath}
    {kind : ErrorKind} (failed : inner.run files = .error kind left) :
    (onFiles inner).run files = .error (.io kind) left :=
  EStateM.run_zoom_eq_error.mpr ⟨kind, left, failed, rfl, rfl⟩

/-- On Unix, replacing a file of a share is a change of this share, or it changes nothing. -/
theorem refines_replaceFile (unix : call.replace.platform = .unix) {file : ShareFile}
    {encoded : Option Bytes} {change : ShareDir → ShareDir}
    (changed : ∀ bytes, encoded = some bytes → ∀ content dir,
      ShareDir.IsShownBy bincode content dir →
        ShareDir.IsShownBy bincode (Function.update content file (some bytes)) (change dir)) :
    Refines (ShowsShares bincode) (replaceFile call (paths.filePath file) encoded)
      (changeShare paths change) := by
  intro files disk shows
  unfold replaceFile
  rw [EStateM.run_bind]
  cases made : call.createDirAll with
  | some kind => exact .inr ⟨.io kind, files, rfl, shows⟩
  | none =>
      rw [run_onFiles_ok (show (OnFiles.attempt none).run files = .ok () files from rfl)]
      cases encoded with
      | none => exact .inr ⟨.encode, files, rfl, shows⟩
      | some bytes =>
          rcases writeFileAtomic_cases unix (paths.filePath file) bytes files with
            ⟨after, ran, replaced⟩ | ⟨kind, left, failed, same⟩
          · exact .inl ⟨after, _, run_onFiles_ok ran, rfl,
              shows.of_replaced replaced (changed bytes rfl)⟩
          · exact .inr ⟨.io kind, left, run_onFiles_error failed, shows.of_same same⟩

/-- A record of another share is refused by both. -/
theorem refines_replaceRecord (unix : call.replace.platform = .unix) {file : ShareFile}
    {owner : ShareId} {encoded : Option Bytes} {change : ShareDir → ShareDir}
    (changed : ∀ bytes, encoded = some bytes → ∀ content dir,
      ShareDir.IsShownBy bincode content dir →
        ShareDir.IsShownBy bincode (Function.update content file (some bytes)) (change dir)) :
    Refines (ShowsShares bincode) (replaceRecord call paths owner (paths.filePath file) encoded)
      (do EStateM.liftExcept id (ensureShareId paths.shareId owner); changeShare paths change) := by
  by_cases owned : paths.shareId = owner
  · rw [replaceRecord, owned, ensureShareId_self]
    exact refines_replaceFile unix changed
  · intro files disk shows
    refine .inr ⟨.shareIdMismatch paths.shareId owner, files, ?_, shows⟩
    rw [replaceRecord, ensureShareId, if_neg owned]
    rfl

/-! ## Writing one file -/

theorem storedOf_ok {α : Type} {decode : Bytes → Except DecodeError α} {bytes : Bytes} {record : α}
    (decoded : decode bytes = .ok record) : storedOf decode (some bytes) = .value record := by
  rw [storedOf, decoded]

namespace OnShareFiles

/-- Writing a descriptor to its file is storing it. -/
theorem refines_writeDescriptor (unix : call.replace.platform = .unix)
    (roundTrip : bincode.descriptor.RoundTrip) (descriptor : EtleDescriptor) :
    Refines (ShowsShares bincode) (writeDescriptor bincode call paths descriptor)
      (Etle.writeDescriptor paths descriptor) := by
  refine refines_replaceRecord unix fun bytes encoded content dir shown => ?_
  have decoded : decodeExact bincode.descriptor bytes "descriptor" = .ok descriptor :=
    decodeExact_eq_ok.mpr (roundTrip _ _ encoded)
  exact ⟨(storedOf_ok decoded).symm, shown.secret, shown.progress, shown.state, shown.chunks⟩

theorem refines_writeSecret (unix : call.replace.platform = .unix)
    (roundTrip : bincode.secret.RoundTrip) (secret : EtleSecret) :
    Refines (ShowsShares bincode) (writeSecret bincode call paths secret)
      (Etle.writeSecret paths secret) := by
  refine refines_replaceRecord unix fun bytes encoded content dir shown => ?_
  have decoded : decodeExact bincode.secret bytes "secret" = .ok secret :=
    decodeExact_eq_ok.mpr (roundTrip _ _ encoded)
  exact ⟨shown.descriptor, (storedOf_ok decoded).symm, shown.progress, shown.state, shown.chunks⟩

theorem refines_writeProgress (unix : call.replace.platform = .unix)
    (roundTrip : bincode.records.progress.RoundTrip) {progress : DownloadProgress}
    (ordered : progress.Ordered) :
    Refines (ShowsShares bincode) (writeProgress bincode call paths progress)
      (Etle.writeProgress paths progress) := by
  refine refines_replaceRecord unix fun bytes encoded content dir shown => ?_
  have decoded := decodeProgress_of_encodeProgress roundTrip ordered encoded
  exact ⟨shown.descriptor, shown.secret, (storedOf_ok decoded).symm, shown.state, shown.chunks⟩

theorem refines_writeState (unix : call.replace.platform = .unix)
    (roundTrip : bincode.records.state.RoundTrip) {state : ShareState}
    (ordered : StrictlyOrdered state.completedChunks) :
    Refines (ShowsShares bincode) (writeState bincode call paths state)
      (Etle.writeState paths state) := by
  refine refines_replaceRecord unix fun bytes encoded content dir shown => ?_
  have decoded := decodeState_of_encodeState roundTrip ordered encoded
  exact ⟨shown.descriptor, shown.secret, shown.progress, (storedOf_ok decoded).symm, shown.chunks⟩

theorem refines_writeChunk (unix : call.replace.platform = .unix) (chunk : EncryptedChunk) :
    Refines (ShowsShares bincode) (writeChunk call paths chunk) (Etle.writeChunk paths chunk) := by
  refine refines_replaceFile unix fun bytes encoded content dir shown => ?_
  obtain rfl := Option.some.inj encoded
  refine ⟨shown.descriptor, shown.secret, shown.progress, shown.state, fun index => ?_⟩
  by_cases same : index = chunk.index
  · simp [same]
  · simp [same, shown.chunks]

end OnShareFiles

/-! ## Initialising a share -/

/-- The calls of an initialisation. -/
structure InitCalls where
  chunksDir : Option ErrorKind
  outputDir : Option ErrorKind
  descriptor : FileCall
  secret : FileCall
  progress : FileCall
  state : FileCall

/-- All files are replaced on Unix. -/
structure InitCalls.OnUnix (calls : InitCalls) : Prop where
  descriptor : calls.descriptor.replace.platform = .unix
  secret : calls.secret.replace.platform = .unix
  progress : calls.progress.replace.platform = .unix
  state : calls.state.replace.platform = .unix

/-- Every record is read back from what is written of it. -/
structure FileBincode.RoundTrips (bincode : FileBincode) : Prop where
  descriptor : bincode.descriptor.RoundTrip
  secret : bincode.secret.RoundTrip
  progress : bincode.records.progress.RoundTrip
  state : bincode.records.state.RoundTrip

namespace OnShareFiles

def createShareDirs (calls : InitCalls) : OnShareFiles Unit := do
  onFiles (OnFiles.attempt calls.chunksDir)
  onFiles (OnFiles.attempt calls.outputDir)

def libraryInit (bincode : FileBincode) (calls : InitCalls) (root : PathBuf)
    (descriptor : EtleDescriptor) (fileKey : SymmetricKey) (mode : ShareMode)
    (outputDir : Option PathBuf) : OnShareFiles LibraryPaths := do
  let paths : LibraryPaths := { root, shareId := descriptor.shareId }
  createShareDirs calls
  writeDescriptor bincode calls.descriptor paths descriptor
  writeSecret bincode calls.secret paths { shareId := descriptor.shareId, fileKey }
  writeProgress bincode calls.progress paths (initialProgress descriptor mode)
  writeState bincode calls.state paths
    (ShareState.fromProgress mode outputDir (initialProgress descriptor mode))
  return paths

/-- The directories of a share are no files. -/
theorem refines_createShareDirs (calls : InitCalls) :
    Refines (ShowsShares bincode) (createShareDirs calls) (Etle.createShareDirs paths) := by
  intro files disk shows
  cases chunks : calls.chunksDir with
  | some kind =>
      refine .inr ⟨.io kind, files, ?_, shows⟩
      rw [createShareDirs, chunks]
      rfl
  | none =>
      cases output : calls.outputDir with
      | some kind =>
          refine .inr ⟨.io kind, files, ?_, shows⟩
          rw [createShareDirs, chunks, output]
          rfl
      | none =>
          refine .inl ⟨files, _, ?_, run_changeShare paths _ disk, fun other => ?_⟩
          · rw [createShareDirs, chunks, output]
            rfl
          · have shown := shows other
            by_cases here : other = paths
            · subst here
              rw [Function.update_self]
              exact ⟨shown.descriptor, shown.secret, shown.progress, shown.state, shown.chunks⟩
            · rwa [Function.update_of_ne here]

end OnShareFiles

/-- The writes of an initialisation, on the files and on the shares. -/
def initWrites (bincode : FileBincode) (calls : InitCalls) (paths : LibraryPaths)
    (descriptor : EtleDescriptor) (fileKey : SymmetricKey) (mode : ShareMode)
    (outputDir : Option PathBuf) : List (OnShareFiles Unit × OnDisk Unit) :=
  let progress := initialProgress descriptor mode
  let state := ShareState.fromProgress mode outputDir progress
  [(OnShareFiles.createShareDirs calls, createShareDirs paths),
    (OnShareFiles.writeDescriptor bincode calls.descriptor paths descriptor,
      writeDescriptor paths descriptor),
    (OnShareFiles.writeSecret bincode calls.secret paths
        { shareId := descriptor.shareId, fileKey },
      writeSecret paths { shareId := descriptor.shareId, fileKey }),
    (OnShareFiles.writeProgress bincode calls.progress paths progress,
      writeProgress paths progress),
    (OnShareFiles.writeState bincode calls.state paths state, writeState paths state)]

theorem ordered_initialProgress (descriptor : EtleDescriptor) (mode : ShareMode) :
    (initialProgress descriptor mode).Ordered := by
  cases mode with
  | seeding | completed => exact DownloadProgress.ordered_new _ _
  | downloading | paused => exact DownloadProgress.ordered_empty _

theorem refines_initWrites {calls : InitCalls} (unix : calls.OnUnix)
    (roundTrips : bincode.RoundTrips) (descriptor : EtleDescriptor) (fileKey : SymmetricKey)
    (mode : ShareMode) (outputDir : Option PathBuf) :
    ∀ write ∈ initWrites bincode calls paths descriptor fileKey mode outputDir,
      Refines (ShowsShares bincode) write.1 write.2 := by
  have ordered := ordered_initialProgress descriptor mode
  have ordered_state : StrictlyOrdered (ShareState.fromProgress mode outputDir
      (initialProgress descriptor mode)).completedChunks :=
    strictlyOrdered_normalizeChunkList _
  simp only [initWrites, List.forall_mem_cons, List.not_mem_nil, false_implies, implies_true,
    and_true]
  exact ⟨OnShareFiles.refines_createShareDirs calls,
    OnShareFiles.refines_writeDescriptor unix.descriptor roundTrips.descriptor descriptor,
    OnShareFiles.refines_writeSecret unix.secret roundTrips.secret _,
    OnShareFiles.refines_writeProgress unix.progress roundTrips.progress ordered,
    OnShareFiles.refines_writeState unix.state roundTrips.state ordered_state⟩

/-- On Unix, initialising a share leaves the initialised share in the files, or it fails with the
files of a share whose initialisation was stopped between two writes. -/
theorem libraryInit_on_files {calls : InitCalls} (unix : calls.OnUnix)
    (roundTrips : bincode.RoundTrips) (root : PathBuf) (descriptor : EtleDescriptor)
    (fileKey : SymmetricKey) (mode : ShareMode) (outputDir : Option PathBuf)
    {files : FileSystem FilePath} {disk : Disk} (shows : ShowsShares bincode files disk) :
    let paths : LibraryPaths := { root, shareId := descriptor.shareId }
    let initialised :=
      (OnShareFiles.libraryInit bincode calls root descriptor fileKey mode outputDir).run files
    (∃ after, initialised = .ok paths after ∧
      ShowsShares bincode after (Function.update disk paths
        (initialisedDir descriptor fileKey mode outputDir (disk paths)))) ∨
    ∃ failure left, initialised = .error failure left ∧
      ∃ stop ∈ stops ((initWrites bincode calls paths descriptor fileKey mode outputDir).map
        Prod.snd) disk, ShowsShares bincode left stop := by
  intro paths initialised
  have on_files : OnShareFiles.libraryInit bincode calls root descriptor fileKey mode outputDir =
      (do
        inOrder ((initWrites bincode calls paths descriptor fileKey mode outputDir).map Prod.fst)
        return paths) := by
    simp [OnShareFiles.libraryInit, initWrites, inOrder, paths, -bind_pure_comp]
  have on_disk : libraryInit root descriptor fileKey mode outputDir =
      (do
        inOrder ((initWrites bincode calls paths descriptor fileKey mode outputDir).map Prod.snd)
        return paths) := by
    simp [libraryInit, initWrites, inOrder, paths, -bind_pure_comp]
  have stored := run_libraryInit root descriptor fileKey mode outputDir disk
  rw [on_disk, EStateM.run_bind] at stored
  simp only [initialised, on_files, EStateM.run_bind]
  rcases refines_inOrder (refines_initWrites unix roundTrips descriptor fileKey mode outputDir)
    shows with ⟨after, next, ran, shown_ran, shows_next⟩ | ⟨failure, left, failed, stop⟩
  · rw [ran]
    rw [shown_ran] at stored
    obtain rfl : next = _ := (EStateM.Result.ok.inj stored).2
    exact .inl ⟨after, rfl, shows_next⟩
  · rw [failed]
    exact .inr ⟨failure, left, rfl, stop⟩

end

end Etle
