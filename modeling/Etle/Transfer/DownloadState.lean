import Etle.Foundations.FiniteSets
import Etle.State.Library

/-!
# The library side of a running download

A download holds a handle on the share it fills: the progress in memory, and how many marks are not
yet on disk.  A received chunk is renamed or written into its final place first and marked second;
the mark reaches the progress file in batches.
-/

namespace Etle

open Std (TreeMap TreeSet)

/-- The handle of a running download on its share. -/
structure ActiveDownloadLibraryState where
  paths : LibraryPaths
  progress : DownloadProgress
  dirtyChunks : Nat

/-- The disk and the handle, which is absent for a download without a library. -/
structure LibrarySession where
  disk : Disk
  active : Option ActiveDownloadLibraryState

/-- A computation on the library side of a download. -/
abbrev OnLibrary := EStateM NetworkError LibrarySession

/-- Run a disk operation on the disk of the session. -/
def onDisk {α : Type} (operation : OnDisk α) : OnLibrary α :=
  EStateM.zoom LibrarySession.disk (fun disk session => { session with disk }) .file operation

/-- The name under which a chunk is received before it is verified. -/
structure TempPath where
  paths : LibraryPaths
  index : UInt32
  suffix : Nat
  deriving DecidableEq

/-- Write a file in a chunk directory. -/
def writeFile (paths : LibraryPaths) (file : ChunkFile) (content : Bytes) : OnDisk Unit :=
  changeShare paths fun dir =>
    { dir with present := true, chunks := Function.update dir.chunks file (some content) }

/-- Remove a file of a chunk directory; a missing file is fine. -/
def removeFile (paths : LibraryPaths) (file : ChunkFile) : OnDisk Unit :=
  changeShare paths fun dir => { dir with chunks := Function.update dir.chunks file none }

/-- Remove a temporary file; a missing file is fine. -/
def removeFileIfExists (temp : TempPath) : OnDisk Unit :=
  removeFile temp.paths (.part temp.index temp.suffix)

/-- Rename a temporary file into the final place of a chunk, whose old file is removed first. -/
def renameToChunk (temp : TempPath) (paths : LibraryPaths) (index : UInt32) : OnDisk Unit := do
  removeFile paths (.chunk index)
  match ((← get) temp.paths).chunks (.part temp.index temp.suffix) with
  | none => throw (.io .notFound)
  | some data =>
      removeFile temp.paths (.part temp.index temp.suffix)
      writeFile paths (.chunk index) data

/-! ## Opening the library -/

/-- The handle must be there. -/
def activeDownloadState : Option ActiveDownloadLibraryState →
    Except NetworkError ActiveDownloadLibraryState
  | none => .error (.peerError "download output reconstruction requires library state")
  | some state => .ok state

/-- A fresh temporary path for a chunk; the suffix is the current time. -/
def downloadChunkTempPath (state : Option ActiveDownloadLibraryState) (index : UInt32)
    (stagingTimestamp : Nat) : Except NetworkError TempPath := do
  let state ← activeDownloadState state
  return { paths := state.paths, index, suffix := stagingTimestamp }

/-- The progress an attempt starts from: the stored one when resuming, if it can be read. -/
def storedProgress (prims : Primitives) (disk : Disk) (paths : LibraryPaths) (resume : Bool) :
    Except FileError DownloadProgress := do
  if resume && (disk paths).progress.isFile then
    if (disk paths).descriptor.isFile then
      let _ ← readDescriptor prims disk paths
    match readProgress disk paths with
    | .ok progress => return progress
    | .error _ => return DownloadProgress.empty paths.shareId
  else
    return DownloadProgress.empty paths.shareId

/-- Store the progress of a share and the operational state that goes with it. -/
def writeRecords (paths : LibraryPaths) (mode : ShareMode) (outputDir : Option PathBuf)
    (progress : DownloadProgress) : OnDisk Unit := do
  writeProgress paths progress
  writeState paths (ShareState.fromProgress mode outputDir progress)

/-- Open, or create, the share a download fills. -/
def initializeDownloadLibraryState (prims : Primitives) (libraryRoot : Option PathBuf)
    (descriptor : EtleDescriptor) (fileKey : SymmetricKey) (outputDir : Option PathBuf)
    (resume : Bool) : OnDisk (Option ActiveDownloadLibraryState) := do
  match libraryRoot with
  | none => return none
  | some root =>
      let paths : LibraryPaths := { root, shareId := descriptor.shareId }
      let progress ← EStateM.liftExcept id (storedProgress prims (← get) paths resume)
      let paths ← libraryInit root descriptor fileKey .downloading outputDir
      if progress.completedChunks.isEmpty then
        return some { paths, progress, dirtyChunks := 0 }
      else
        writeRecords paths .downloading outputDir progress
        return some { paths, progress, dirtyChunks := 0 }

/-- The entries whose recorded chunk is still on disk and still verifies.  A chunk file of the
wrong size is an error. -/
def resumableEntries (prims : Primitives) (disk : Disk) (state : ActiveDownloadLibraryState) :
    List ChunkMeta → Except FileError (List (ChunkMeta × EncryptedChunk))
  | [] => .ok []
  | entry :: rest =>
      if !state.progress.hasChunk entry.index || !hasChunk disk state.paths entry.index then
        resumableEntries prims disk state rest
      else do
        let chunk ← readChunk disk state.paths entry.index entry.encryptedSize
        let later ← resumableEntries prims disk state rest
        if hashChunk prims chunk.data ≠ entry.blake3Hash then
          return later
        else
          return (entry, chunk) :: later

/-- Progress over the given entries, built by marking them one by one. -/
def progressOver (shareId : ShareId) (entries : List ChunkMeta) : DownloadProgress :=
  entries.foldl (fun progress entry => progress.markCompleted entry.index)
    (DownloadProgress.empty shareId)

/-- The indices of the given entries. -/
def completedOver (entries : List ChunkMeta) : TreeSet UInt32 :=
  entries.foldl (fun completed entry => completed.insert entry.index) ∅

/-- Replace the progress by what is really there, and store it. -/
def storeResumed (prims : Primitives) (manifest : Manifest) (outputDir : Option PathBuf)
    (state : ActiveDownloadLibraryState) : OnLibrary (List (ChunkMeta × EncryptedChunk)) := do
  let valid ←
    EStateM.liftExcept .file (resumableEntries prims (← get).disk state manifest.chunks)
  let progress := progressOver state.paths.shareId (valid.map Prod.fst)
  modify fun session => { session with active := some { state with progress } }
  onDisk (writeRecords state.paths .downloading outputDir progress)
  return valid

/-- The indices a resumed download need not fetch again. -/
def loadResumableChunkIndexes (prims : Primitives) (manifest : Manifest)
    (outputDir : Option PathBuf) : OnLibrary (TreeSet UInt32) := do
  match (← get).active with
  | none => return ∅
  | some state =>
      let valid ← storeResumed prims manifest outputDir state
      return completedOver (valid.map Prod.fst)

/-- The chunks a resumed download need not fetch again, with their bytes. -/
def loadResumableChunks (prims : Primitives) (manifest : Manifest)
    (outputDir : Option PathBuf) : OnLibrary (TreeMap UInt32 EncryptedChunk) := do
  match (← get).active with
  | none => return ∅
  | some state =>
      let valid ← storeResumed prims manifest outputDir state
      return valid.foldl (fun chunks found => chunks.insert found.1.index found.2) ∅

/-! ## Recording received chunks -/

/-- Marks are flushed after this many chunks. -/
def progressFlushChunkInterval : Nat := 32

/-- Store the progress and the state that goes with it. -/
def flushDownloadProgress (mode : ShareMode) (outputDir : Option PathBuf)
    (state : ActiveDownloadLibraryState) : OnLibrary Unit := do
  onDisk (writeRecords state.paths mode outputDir state.progress)
  modify fun session => { session with active := some { state with dirtyChunks := 0 } }

/-- Enough marks are waiting, or the flush interval has elapsed. -/
def shouldFlushDownloadProgress (state : ActiveDownloadLibraryState) (elapsed : Bool) : Bool :=
  decide (progressFlushChunkInterval ≤ state.dirtyChunks) || elapsed

/-- The handle after a chunk has been marked. -/
def ActiveDownloadLibraryState.marked (state : ActiveDownloadLibraryState) (index : UInt32) :
    ActiveDownloadLibraryState :=
  { state with
    progress := state.progress.markCompleted index, dirtyChunks := state.dirtyChunks + 1 }

/-- Mark a chunk that is in its final place, and flush when it is time. -/
def recordChunk (index : UInt32) (outputDir : Option PathBuf) (elapsed : Bool)
    (state : ActiveDownloadLibraryState) : OnLibrary Unit := do
  modify fun session => { session with active := some (state.marked index) }
  if shouldFlushDownloadProgress (state.marked index) elapsed then
    flushDownloadProgress .downloading outputDir (state.marked index)

/-- Move a verified temporary file into the library and mark its chunk. -/
def persistDownloadedChunkFile (index : UInt32) (temp : TempPath) (outputDir : Option PathBuf)
    (elapsed : Bool) : OnLibrary Unit := do
  match (← get).active with
  | none => onDisk (removeFileIfExists temp)
  | some state =>
      onDisk (createShareDirs state.paths)
      onDisk (renameToChunk temp state.paths index)
      recordChunk index outputDir elapsed state

/-- Write a verified chunk from memory into the library and mark it. -/
def persistDownloadedChunk (chunk : EncryptedChunk) (outputDir : Option PathBuf)
    (elapsed : Bool) : OnLibrary Unit := do
  match (← get).active with
  | none => return
  | some state =>
      onDisk (writeChunk state.paths chunk)
      recordChunk chunk.index outputDir elapsed state

/-- Flush what is waiting and set the mode of the share to completed. -/
def markDownloadLibraryComplete (outputDir : Option PathBuf) : OnLibrary Unit := do
  match (← get).active with
  | none => return
  | some state =>
      if 0 < state.dirtyChunks then
        flushDownloadProgress .downloading outputDir state
      onDisk (writeState state.paths
        (ShareState.fromProgress .completed outputDir state.progress))

/-! ## Receiving a chunk into a file -/

/-- What a reply to a chunk request turns out to be. -/
inductive ReceivedChunkFrame where
  | rawChunkFile (index : UInt32) (dataLen : Nat) (blake3Hash : Bytes32)
  | message (message : WireMessage)

/-- Receive one frame, streaming a raw chunk into the temporary file. -/
def receiveChunkToFile (prims : Primitives) (temp : TempPath) :
    List Frame → OnLibrary (ReceivedChunkFrame × List Frame)
  | [] => throw (.protocol (.io .unexpectedEof))
  | .encoded message :: rest => return (.message message, rest)
  | .raw index data :: rest => do
      onDisk (writeFile temp.paths (.part temp.index temp.suffix) data)
      return (.rawChunkFile index data.length (prims.blake3 data), rest)
  | .cut _ received :: _ => do
      onDisk (writeFile temp.paths (.part temp.index temp.suffix) received)
      throw (.protocol (.io .unexpectedEof))
  | .invalid error :: _ => throw (.protocol error)

/-! ## What the operations leave behind -/

@[simp]
theorem run_onDisk_ok {α : Type} {operation : OnDisk α} {session : LibrarySession} {value : α}
    {disk : Disk} (outcome : operation.run session.disk = .ok value disk) :
    (onDisk operation).run session = .ok value { session with disk } :=
  EStateM.run_zoom_eq_ok.mpr ⟨disk, outcome, rfl⟩

/-- The share directory after its progress and state have been stored. -/
def flushedDir (mode : ShareMode) (outputDir : Option PathBuf) (progress : DownloadProgress)
    (dir : ShareDir) : ShareDir :=
  { dir with
    present := true
    progress := .value progress
    state := .value (ShareState.fromProgress mode outputDir progress) }

/-- The handle writes under its own share. -/
def ActiveDownloadLibraryState.Owned (state : ActiveDownloadLibraryState) : Prop :=
  state.progress.shareId = state.paths.shareId

theorem run_writeRecords {paths : LibraryPaths} {progress : DownloadProgress}
    (owned : progress.shareId = paths.shareId) (mode : ShareMode) (outputDir : Option PathBuf)
    (disk : Disk) :
    (writeRecords paths mode outputDir progress).run disk =
      .ok () (Function.update disk paths (flushedDir mode outputDir progress (disk paths))) := by
  simp [writeRecords, writeProgress, writeState, owned, flushedDir, -bind_pure_comp]

theorem run_flushDownloadProgress {state : ActiveDownloadLibraryState} (owned : state.Owned)
    (mode : ShareMode) (outputDir : Option PathBuf) (session : LibrarySession) :
    (flushDownloadProgress mode outputDir state).run session =
      .ok () {
        disk := Function.update session.disk state.paths
          (flushedDir mode outputDir state.progress (session.disk state.paths))
        active := some { state with dirtyChunks := 0 } } := by
  simp [flushDownloadProgress, run_onDisk_ok (run_writeRecords owned mode outputDir session.disk),
    -bind_pure_comp]

@[simp]
theorem ActiveDownloadLibraryState.marked_paths (state : ActiveDownloadLibraryState)
    (index : UInt32) : (state.marked index).paths = state.paths := rfl

theorem ActiveDownloadLibraryState.Owned.marked {state : ActiveDownloadLibraryState}
    (owned : state.Owned) (index : UInt32) : (state.marked index).Owned := by
  simpa [Owned, ActiveDownloadLibraryState.marked] using owned

/-- Marking a chunk either only changes the handle or also stores the progress. -/
theorem run_recordChunk {state : ActiveDownloadLibraryState} (owned : state.Owned)
    (index : UInt32) (outputDir : Option PathBuf) (elapsed : Bool) (session : LibrarySession) :
    (recordChunk index outputDir elapsed state).run session =
      .ok () (if shouldFlushDownloadProgress (state.marked index) elapsed then {
          disk := Function.update session.disk state.paths
            (flushedDir .downloading outputDir (state.marked index).progress
              (session.disk state.paths))
          active := some { state.marked index with dirtyChunks := 0 } }
        else { session with active := some (state.marked index) }) := by
  have flush := run_flushDownloadProgress (owned.marked index) .downloading outputDir
    { session with active := some (state.marked index) }
  unfold recordChunk
  by_cases due : shouldFlushDownloadProgress (state.marked index) elapsed = true
  · simpa [due] using flush
  · simp [due, -bind_pure_comp]

theorem mem_completedOver {entries : List ChunkMeta} {index : UInt32} :
    index ∈ completedOver entries ↔ index ∈ entries.map ChunkMeta.index := by
  have inserted :=
    @TreeSet.mem_foldl_insert UInt32 compare (entries.map ChunkMeta.index) _ _ ∅ index
  simpa [completedOver, List.foldl_map] using inserted

theorem progressOver_spec (shareId : ShareId) (entries : List ChunkMeta) :
    (progressOver shareId entries).shareId = shareId ∧ (progressOver shareId entries).Ordered ∧
      ∀ index, index ∈ (progressOver shareId entries).completedChunks ↔
        index ∈ entries.map ChunkMeta.index := by
  have general (start : DownloadProgress) (owned : start.shareId = shareId)
      (ordered : start.Ordered) :
      let final := entries.foldl (fun progress entry => progress.markCompleted entry.index) start
      final.shareId = shareId ∧ final.Ordered ∧
        ∀ index, index ∈ final.completedChunks ↔
          index ∈ start.completedChunks ∨ index ∈ entries.map ChunkMeta.index := by
    induction entries generalizing start with
    | nil => exact ⟨owned, ordered, by simp⟩
    | cons entry rest ih =>
        obtain ⟨final_owned, final_ordered, members⟩ :=
          ih (start.markCompleted entry.index) (by simpa using owned)
            (ordered.markCompleted entry.index)
        refine ⟨final_owned, final_ordered, fun index => ?_⟩
        simp only [List.foldl_cons, members, DownloadProgress.mem_markCompleted ordered,
          List.map_cons, List.mem_cons]
        tauto
  simpa [progressOver] using general (.empty shareId) rfl (DownloadProgress.ordered_empty shareId)

/-- What is found resumable is in the manifest and has the size and the hash of its entry. -/
theorem resumableEntries_sound {prims : Primitives} {disk : Disk}
    {state : ActiveDownloadLibraryState} {entries : List ChunkMeta}
    {valid : List (ChunkMeta × EncryptedChunk)}
    (found : resumableEntries prims disk state entries = .ok valid) :
    ∀ entry ∈ valid.map Prod.fst, entry ∈ entries ∧ chunkVerifies prims disk state.paths entry := by
  induction entries generalizing valid with
  | nil =>
      obtain rfl : [] = valid := by simpa [resumableEntries] using found
      simp
  | cons entry rest ih =>
      unfold resumableEntries at found
      split at found
      · intro other member
        obtain ⟨later, verifies⟩ := ih found other member
        exact ⟨List.mem_cons_of_mem _ later, verifies⟩
      · cases stored : readChunk disk state.paths entry.index entry.encryptedSize with
        | error failure => simp [stored, bind, Except.bind] at found
        | ok chunk =>
            cases others : resumableEntries prims disk state rest with
            | error failure => simp [stored, others, bind, Except.bind] at found
            | ok later =>
                by_cases hash : hashChunk prims chunk.data = entry.blake3Hash
                · obtain rfl : (entry, chunk) :: later = valid := by
                    simpa [stored, others, hash, bind, Except.bind, pure, Except.pure] using found
                  intro other member
                  obtain rfl | member := List.mem_cons.mp member
                  · exact ⟨List.mem_cons_self, by simp [chunkVerifies, stored, hash]⟩
                  · obtain ⟨deeper, verifies⟩ := ih others other member
                    exact ⟨List.mem_cons_of_mem _ deeper, verifies⟩
                · obtain rfl : later = valid := by
                    simpa [stored, others, hash, bind, Except.bind, pure, Except.pure] using found
                  intro other member
                  obtain ⟨deeper, verifies⟩ := ih others other member
                  exact ⟨List.mem_cons_of_mem _ deeper, verifies⟩

/-- What resuming the given entries makes of the library. -/
def resumedSession (outputDir : Option PathBuf) (session : LibrarySession)
    (state : ActiveDownloadLibraryState) (entries : List ChunkMeta) : LibrarySession where
  disk := Function.update session.disk state.paths
    (flushedDir .downloading outputDir (progressOver state.paths.shareId entries)
      (session.disk state.paths))
  active := some { state with progress := progressOver state.paths.shareId entries }

theorem run_loadResumableChunkIndexes_of_valid {prims : Primitives} {manifest : Manifest}
    {session : LibrarySession} {state : ActiveDownloadLibraryState}
    {valid : List (ChunkMeta × EncryptedChunk)} (outputDir : Option PathBuf)
    (active : session.active = some state)
    (found : resumableEntries prims session.disk state manifest.chunks = .ok valid) :
    (loadResumableChunkIndexes prims manifest outputDir).run session =
      .ok (completedOver (valid.map Prod.fst))
        (resumedSession outputDir session state (valid.map Prod.fst)) := by
  have owned := (progressOver_spec state.paths.shareId (valid.map Prod.fst)).1
  have records (current : LibrarySession) :
      (onDisk (writeRecords state.paths .downloading outputDir
        (progressOver state.paths.shareId (valid.map Prod.fst)))).run current = _ :=
    run_onDisk_ok (run_writeRecords owned .downloading outputDir current.disk)
  simp [loadResumableChunkIndexes, storeResumed, active, found, records, resumedSession,
    -bind_pure_comp]

/-- Resuming leaves exactly the verified entries in the handle, on disk and in the result. -/
theorem loadResumableChunkIndexes_eq_ok {prims : Primitives} {manifest : Manifest}
    {outputDir : Option PathBuf} {session after : LibrarySession}
    {state : ActiveDownloadLibraryState} {completed : TreeSet UInt32}
    (active : session.active = some state)
    (loaded : (loadResumableChunkIndexes prims manifest outputDir).run session =
      .ok completed after) :
    ∃ valid, resumableEntries prims session.disk state manifest.chunks = .ok valid ∧
      completed = completedOver (valid.map Prod.fst) ∧
      after = resumedSession outputDir session state (valid.map Prod.fst) := by
  cases found : resumableEntries prims session.disk state manifest.chunks with
  | error failure =>
      simp [loadResumableChunkIndexes, storeResumed, active, found, -bind_pure_comp] at loaded
  | ok valid =>
      rw [run_loadResumableChunkIndexes_of_valid outputDir active found] at loaded
      obtain ⟨rfl, rfl⟩ : _ = completed ∧ _ = after := by simpa using loaded
      exact ⟨valid, rfl, rfl, rfl⟩

/-- Only indices of the manifest are resumed. -/
theorem mem_indices_of_loadResumableChunkIndexes {prims : Primitives} {manifest : Manifest}
    {outputDir : Option PathBuf} {session after : LibrarySession} {completed : TreeSet UInt32}
    (loaded : (loadResumableChunkIndexes prims manifest outputDir).run session =
      .ok completed after) {index : UInt32} (member : index ∈ completed) :
    index ∈ manifest.indices := by
  cases active : session.active with
  | none =>
      obtain ⟨rfl, -⟩ : ∅ = completed ∧ session = after := by
        simpa [loadResumableChunkIndexes, active, -bind_pure_comp] using loaded
      simp at member
  | some state =>
      obtain ⟨valid, found, rfl, -⟩ := loadResumableChunkIndexes_eq_ok active loaded
      obtain ⟨entry, entry_valid, rfl⟩ := List.mem_map.mp (mem_completedOver.mp member)
      exact List.mem_map_of_mem (resumableEntries_sound found entry entry_valid).1

/-- What recording a chunk leaves behind: new chunk files, a marked handle, and records that are
either untouched or those of the marked handle.  Nothing else on the disk changes. -/
structure Recorded (state : ActiveDownloadLibraryState) (index : UInt32)
    (outputDir : Option PathBuf) (files : ChunkFile → Option Bytes)
    (before after : LibrarySession) : Prop where
  files : (after.disk state.paths).chunks = files
  descriptor : (after.disk state.paths).descriptor = (before.disk state.paths).descriptor
  secret : (after.disk state.paths).secret = (before.disk state.paths).secret
  others : ∀ other, other ≠ state.paths → after.disk other = before.disk other
  records :
    (after.active = some { state.marked index with dirtyChunks := 0 } ∧
      (after.disk state.paths).progress = .value (state.marked index).progress ∧
      (after.disk state.paths).state =
        .value (ShareState.fromProgress .downloading outputDir (state.marked index).progress)) ∨
    (after.active = some (state.marked index) ∧
      (after.disk state.paths).progress = (before.disk state.paths).progress ∧
      (after.disk state.paths).state = (before.disk state.paths).state)

/-- The session after the chunk files of one share have been replaced. -/
def LibrarySession.withFiles (session : LibrarySession) (paths : LibraryPaths)
    (files : ChunkFile → Option Bytes) : LibrarySession :=
  { session with
    disk := Function.update session.disk paths
      { session.disk paths with present := true, chunks := files } }

theorem withFiles_withFiles (session : LibrarySession) (paths : LibraryPaths)
    (files others : ChunkFile → Option Bytes) :
    (session.withFiles paths files).withFiles paths others = session.withFiles paths others := by
  simp [LibrarySession.withFiles]

/-- Creating the directories of a share keeps its files. -/
theorem run_createShareDirs (paths : LibraryPaths) (session : LibrarySession) :
    (onDisk (createShareDirs paths)).run session =
      .ok () (session.withFiles paths (session.disk paths).chunks) := run_onDisk_ok rfl

/-- Marking a chunk once its file is in place. -/
theorem recordChunk_spec {state : ActiveDownloadLibraryState} (owned : state.Owned)
    (index : UInt32) (outputDir : Option PathBuf) (elapsed : Bool) (session : LibrarySession)
    (files : ChunkFile → Option Bytes) :
    ∃ after, (recordChunk index outputDir elapsed state).run (session.withFiles state.paths files) =
        .ok () after ∧ Recorded state index outputDir files session after := by
  refine ⟨_, run_recordChunk owned index outputDir elapsed _, ?_⟩
  have frame : ∀ other, other ≠ state.paths →
      (session.withFiles state.paths files).disk other = session.disk other := by
    intro other different
    simp [LibrarySession.withFiles, different]
  split
  · refine ⟨?_, ?_, ?_, ?_, .inl ⟨rfl, ?_, ?_⟩⟩
    · simp [flushedDir, LibrarySession.withFiles]
    · simp [flushedDir, LibrarySession.withFiles]
    · simp [flushedDir, LibrarySession.withFiles]
    · intro other different
      simpa [different] using frame other different
    · simp [flushedDir]
    · simp [flushedDir]
  · refine ⟨?_, ?_, ?_, frame, .inr ⟨rfl, ?_, ?_⟩⟩ <;> simp [LibrarySession.withFiles]

theorem persistDownloadedChunk_spec {session : LibrarySession} {state : ActiveDownloadLibraryState}
    (active : session.active = some state) (owned : state.Owned) (chunk : EncryptedChunk)
    (outputDir : Option PathBuf) (elapsed : Bool) :
    ∃ after, (persistDownloadedChunk chunk outputDir elapsed).run session = .ok () after ∧
      Recorded state chunk.index outputDir
        (Function.update (session.disk state.paths).chunks (.chunk chunk.index) (some chunk.data))
        session after := by
  obtain ⟨after, recorded, spec⟩ := recordChunk_spec owned chunk.index outputDir elapsed session
    (Function.update (session.disk state.paths).chunks (.chunk chunk.index) (some chunk.data))
  have written : (onDisk (writeChunk state.paths chunk)).run session =
      .ok () (session.withFiles state.paths (Function.update (session.disk state.paths).chunks
        (.chunk chunk.index) (some chunk.data))) := run_onDisk_ok rfl
  refine ⟨after, ?_, spec⟩
  simp [persistDownloadedChunk, active, written, recorded, -bind_pure_comp]

/-- A rename whose source exists moves its bytes into the final place. -/
theorem run_renameToChunk {session : LibrarySession} {temp : TempPath} {data : Bytes}
    (index : UInt32)
    (received : (session.disk temp.paths).chunks (.part temp.index temp.suffix) = some data) :
    (onDisk (renameToChunk temp temp.paths index)).run session =
      .ok () (session.withFiles temp.paths
        (Function.update (Function.update (session.disk temp.paths).chunks
          (.part temp.index temp.suffix) none) (.chunk index) (some data))) := by
  apply run_onDisk_ok
  have other_name : ChunkFile.chunk index ≠ .part temp.index temp.suffix := by simp
  simp [renameToChunk, removeFile, writeFile, received, -bind_pure_comp]
  rw [Function.update_comm other_name, Function.update_idem]

theorem persistDownloadedChunkFile_spec {session : LibrarySession}
    {state : ActiveDownloadLibraryState} (active : session.active = some state)
    (owned : state.Owned) {temp : TempPath} (same : temp.paths = state.paths) {data : Bytes}
    (received : (session.disk state.paths).chunks (.part temp.index temp.suffix) = some data)
    (index : UInt32) (outputDir : Option PathBuf) (elapsed : Bool) :
    ∃ after, (persistDownloadedChunkFile index temp outputDir elapsed).run session =
        .ok () after ∧
      Recorded state index outputDir
        (Function.update (Function.update (session.disk state.paths).chunks
          (.part temp.index temp.suffix) none) (.chunk index) (some data)) session after := by
  obtain ⟨after, recorded, spec⟩ := recordChunk_spec owned index outputDir elapsed session
    (Function.update (Function.update (session.disk state.paths).chunks
          (.part temp.index temp.suffix) none) (.chunk index) (some data))
  have created := run_createShareDirs state.paths session
  have kept : ((session.withFiles state.paths (session.disk state.paths).chunks).disk
      temp.paths).chunks (.part temp.index temp.suffix) = some data := by
    simpa [LibrarySession.withFiles, same] using received
  have renamed := run_renameToChunk index kept
  rw [same, withFiles_withFiles] at renamed
  have same_files : ((session.withFiles state.paths (session.disk state.paths).chunks).disk
      state.paths).chunks = (session.disk state.paths).chunks := by simp [LibrarySession.withFiles]
  rw [same_files] at renamed
  refine ⟨after, ?_, spec⟩
  simp [persistDownloadedChunkFile, active, created, renamed, recorded, -bind_pure_comp]

/-- What marking a share as completed leaves behind: the stored state says so, the stored progress
is the handle's where marks were waiting, and nothing else changes. -/
structure MarkedComplete (state : ActiveDownloadLibraryState) (outputDir : Option PathBuf)
    (before after : LibrarySession) : Prop where
  active : after.active = some { state with dirtyChunks := 0 }
  files : (after.disk state.paths).chunks = (before.disk state.paths).chunks
  descriptor : (after.disk state.paths).descriptor = (before.disk state.paths).descriptor
  secret : (after.disk state.paths).secret = (before.disk state.paths).secret
  mode : (after.disk state.paths).state =
    .value (ShareState.fromProgress .completed outputDir state.progress)
  progress : (after.disk state.paths).progress =
    if 0 < state.dirtyChunks then .value state.progress else (before.disk state.paths).progress
  others : ∀ other, other ≠ state.paths → after.disk other = before.disk other

theorem markDownloadLibraryComplete_spec {session : LibrarySession}
    {state : ActiveDownloadLibraryState} (active : session.active = some state)
    (owned : state.Owned) (outputDir : Option PathBuf) :
    ∃ after, (markDownloadLibraryComplete outputDir).run session = .ok () after ∧
      MarkedComplete state outputDir session after := by
  have same : state.paths.shareId = state.progress.shareId := owned.symm
  have written (disk : Disk) : (writeState state.paths
      (ShareState.fromProgress .completed outputDir state.progress)).run disk =
      .ok () (Function.update disk state.paths { disk state.paths with
        present := true
        state := .value (ShareState.fromProgress .completed outputDir state.progress) }) := by
    simp [writeState, same, -bind_pure_comp]
  have stored (current : LibrarySession) : (onDisk (writeState state.paths
      (ShareState.fromProgress .completed outputDir state.progress))).run current = _ :=
    run_onDisk_ok (written current.disk)
  by_cases dirty : 0 < state.dirtyChunks
  · have flushed := run_flushDownloadProgress owned .downloading outputDir session
    refine ⟨_, by simp only [markDownloadLibraryComplete, EStateM.run_bind, EStateM.run_get, active,
      dirty, if_true, flushed, stored]; rfl, ?_⟩
    refine ⟨rfl, ?_, ?_, ?_, ?_, ?_, ?_⟩ <;> simp [flushedDir, dirty]
    intro other different
    simp [different]
  · have clean : state.dirtyChunks = 0 := by omega
    refine ⟨_, by simp only [markDownloadLibraryComplete, EStateM.run_bind, EStateM.run_get, active,
      dirty, if_false, stored]; rfl, ?_⟩
    refine ⟨?_, ?_, ?_, ?_, ?_, ?_, ?_⟩ <;> simp [dirty]
    · obtain ⟨paths, progress, dirtyChunks⟩ := state
      simp_all
    · intro other different
      simp [different]

end Etle
