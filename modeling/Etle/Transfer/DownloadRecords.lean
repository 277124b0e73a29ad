import Etle.Transfer.Download
import Etle.Transfer.WindowMoves

/-!
# The records of a share during a download

Opening the library replaces the four records of the share and sets its mode to downloading.  From
then on the descriptor and the file key stay, no other share is touched, and the mode changes only
when the download is complete.
-/

namespace Etle

open Std (TreeMap TreeSet)

/-- A disk on which one share has been put into the downloading mode and nothing else has changed
outside its directory. -/
structure LeftDownloading (paths : LibraryPaths) (before after : Disk) : Prop where
  others : ∀ other, other ≠ paths → after other = before other
  mode : ∃ state, (after paths).state = .value state ∧ state.mode = .downloading ∧
    state.shareId = paths.shareId

/-- The library of a running download. -/
structure DownloadRecords (paths : LibraryPaths) (descriptor : EtleDescriptor)
    (fileKey : SymmetricKey) (before : Disk) (session : LibrarySession)
    (library : ActiveDownloadLibraryState) : Prop where
  active : session.active = some library
  located : library.paths = paths
  owned : library.Owned
  ordered : library.progress.Ordered
  described : (session.disk paths).descriptor = .value descriptor
  keyed : (session.disk paths).secret = .value { shareId := descriptor.shareId, fileKey }
  /-- What is marked is on disk unless marks are waiting. -/
  flushed : library.dirtyChunks = 0 → (session.disk paths).progress = .value library.progress
  downloading : LeftDownloading paths before session.disk

section

variable {prims : Primitives} {paths : LibraryPaths} {descriptor : EtleDescriptor}
  {fileKey : SymmetricKey} {before : Disk} {outputDir : Option PathBuf}

/-- A temporary file of the share is not one of its records. -/
theorem DownloadRecords.of_onlyTemp {session after : LibrarySession}
    {library : ActiveDownloadLibraryState} {temp : TempPath}
    (records : DownloadRecords paths descriptor fileKey before session library)
    (same : temp.paths = paths) (only : OnlyTemp temp session.disk after.disk)
    (active : after.active = session.active) :
    DownloadRecords paths descriptor fileKey before after library := by
  refine ⟨active.trans records.active, records.located, records.owned, records.ordered, ?_, ?_, ?_,
    ⟨?_, ?_⟩⟩
  · rw [only.descriptor]
    exact records.described
  · rw [only.secret]
    exact records.keyed
  · rw [only.progress]
    exact records.flushed
  · intro other different
    rw [only.others other (by rwa [same])]
    exact records.downloading.others other different
  · rw [only.state]
    exact records.downloading.mode

/-- Recording a chunk marks it and keeps the other records. -/
theorem DownloadRecords.of_recorded {session after : LibrarySession}
    {library : ActiveDownloadLibraryState} {index : UInt32} {files : ChunkFile → Option Bytes}
    (records : DownloadRecords paths descriptor fileKey before session library)
    (recorded : Recorded library index outputDir files session after) :
    ∃ next, DownloadRecords paths descriptor fileKey before after next ∧
      next.progress = library.progress.markCompleted index := by
  obtain ⟨active, rfl, owned, ordered, described, keyed, flushed, others, mode⟩ := records
  have untouched (other : LibraryPaths) (different : other ≠ library.paths) :
      after.disk other = before other :=
    (recorded.others other different).trans (others other different)
  obtain ⟨after_active, progress, state⟩ | ⟨after_active, progress, state⟩ := recorded.records
  · exact ⟨_, ⟨after_active, rfl, owned.marked index, ordered.markCompleted index,
      recorded.descriptor.trans described, recorded.secret.trans keyed, fun _ => progress,
      untouched, _, state, rfl, owned.marked index⟩, rfl⟩
  · refine ⟨_, ⟨after_active, rfl, owned.marked index, ordered.markCompleted index,
      recorded.descriptor.trans described, recorded.secret.trans keyed, fun clean => ?_,
      untouched, ?_⟩, rfl⟩
    · simp [ActiveDownloadLibraryState.marked] at clean
    · rw [state]
      exact mode

/-! ## Opening the library -/

/-- What opening a share leaves in its directory: new records over the old chunk files. -/
structure OpenedDir (descriptor : EtleDescriptor) (fileKey : SymmetricKey)
    (before after : ShareDir) : Prop where
  described : after.descriptor = .value descriptor
  keyed : after.secret = .value { shareId := descriptor.shareId, fileKey }
  chunks : after.chunks = before.chunks
  mode : ∃ state, after.state = .value state ∧ state.mode = .downloading ∧
    state.shareId = descriptor.shareId

theorem openedDir_initialisedDir (descriptor : EtleDescriptor) (fileKey : SymmetricKey)
    (outputDir : Option PathBuf) (dir : ShareDir) :
    OpenedDir descriptor fileKey dir
      (initialisedDir descriptor fileKey .downloading outputDir dir) :=
  ⟨rfl, rfl, rfl, _, rfl, rfl, rfl⟩

theorem OpenedDir.flushed {dir opened : ShareDir} {progress : DownloadProgress}
    (records : OpenedDir descriptor fileKey dir opened) (outputDir : Option PathBuf)
    (owned : progress.shareId = descriptor.shareId) :
    OpenedDir descriptor fileKey dir (flushedDir .downloading outputDir progress opened) :=
  ⟨records.described, records.keyed, records.chunks, _, rfl, rfl, owned⟩

theorem readProgress_shareId {disk : Disk} {progress : DownloadProgress}
    (read : readProgress disk paths = .ok progress) : progress.shareId = paths.shareId := by
  unfold readProgress at read
  cases stored : readStored (disk paths).progress with
  | error failure => simp [stored, bind, Except.bind] at read
  | ok content =>
      by_cases same : paths.shareId = content.shareId
      · obtain rfl : content = progress := by
          simpa [stored, ensureShareId, same, bind, Except.bind, pure, Except.pure] using read
        exact same.symm
      · simp [stored, ensureShareId, same, bind, Except.bind] at read

/-- The progress an attempt starts from belongs to its share. -/
theorem storedProgress_shareId {disk : Disk} {resume : Bool} {progress : DownloadProgress}
    (found : storedProgress prims disk paths resume = .ok progress) :
    progress.shareId = paths.shareId := by
  have chosen : readProgress disk paths = .ok progress ∨
      progress = DownloadProgress.empty paths.shareId := by
    simp only [storedProgress, bind, Except.bind, pure, Except.pure] at found
    cases read : readProgress disk paths with
    | ok stored =>
        simp only [read] at found
        repeat' split at found
        all_goals simp_all
    | error failure =>
        simp only [read] at found
        repeat' split at found
        all_goals simp_all
  obtain read | rfl := chosen
  · exact readProgress_shareId read
  · rfl

/-- Opening the library fails before it writes, or leaves the share downloading. -/
theorem run_initializeDownloadLibraryState (prims : Primitives) (root : PathBuf)
    (descriptor : EtleDescriptor) (fileKey : SymmetricKey) (outputDir : Option PathBuf)
    (resume : Bool) (disk : Disk) {paths : LibraryPaths}
    (here : paths = { root, shareId := descriptor.shareId }) :
    (∃ error, storedProgress prims disk paths resume = .error error ∧
      (initializeDownloadLibraryState prims (some root) descriptor fileKey outputDir resume).run
        disk = .error error disk) ∨
    (∃ progress opened, storedProgress prims disk paths resume = .ok progress ∧
      (initializeDownloadLibraryState prims (some root) descriptor fileKey outputDir resume).run
        disk = .ok (some { paths, progress, dirtyChunks := 0 })
          (Function.update disk paths opened) ∧
      OpenedDir descriptor fileKey (disk paths) opened) := by
  subst here
  cases found : storedProgress prims disk { root, shareId := descriptor.shareId } resume with
  | error error =>
      refine .inl ⟨error, rfl, ?_⟩
      simp [initializeDownloadLibraryState, found, -bind_pure_comp]
  | ok progress =>
      right
      have owned : progress.shareId = descriptor.shareId := storedProgress_shareId found
      have opened := openedDir_initialisedDir descriptor fileKey outputDir
        (disk { root, shareId := descriptor.shareId })
      by_cases empty : progress.completedChunks = []
      · refine ⟨progress, _, rfl, ?_, opened⟩
        simp [initializeDownloadLibraryState, found, run_libraryInit, empty, -bind_pure_comp]
      · have written := @run_writeRecords { root, shareId := descriptor.shareId } _ owned
          .downloading outputDir
        refine ⟨progress, _, rfl, ?_, opened.flushed outputDir owned⟩
        simp [initializeDownloadLibraryState, found, run_libraryInit, empty, written,
          -bind_pure_comp]

/-- Loading what can be resumed fails without a write, or leaves the records of a download whose
marks are the resumed indices. -/
theorem run_loadResumableChunkIndexes {manifest : Manifest} {session : LibrarySession}
    {library : ActiveDownloadLibraryState} (outputDir : Option PathBuf)
    (active : session.active = some library) (located : library.paths = paths)
    (opened : OpenedDir descriptor fileKey (before paths) (session.disk paths))
    (others : ∀ other, other ≠ paths → session.disk other = before other) :
    (∃ error, (loadResumableChunkIndexes prims manifest outputDir).run session =
        .error error session) ∨
    (∃ completed after next,
      (loadResumableChunkIndexes prims manifest outputDir).run session = .ok completed after ∧
      DownloadRecords paths descriptor fileKey before after next ∧
      next.dirtyChunks = library.dirtyChunks ∧
      ∀ index, index ∈ next.progress.completedChunks ↔ index ∈ completed) := by
  subst located
  cases found : resumableEntries prims session.disk library manifest.chunks with
  | error failure =>
      refine .inl ⟨.file failure, ?_⟩
      simp [loadResumableChunkIndexes, storeResumed, active, found, -bind_pure_comp]
  | ok valid =>
      obtain ⟨owned, ordered, members⟩ :=
        progressOver_spec library.paths.shareId (valid.map Prod.fst)
      refine .inr ⟨_, _, _, run_loadResumableChunkIndexes_of_valid outputDir active found,
        ⟨rfl, rfl, owned, ordered, ?_, ?_, fun _ => ?_, ?_, ?_⟩, rfl, ?_⟩
      · simpa [resumedSession, flushedDir] using opened.described
      · simpa [resumedSession, flushedDir] using opened.keyed
      · simp [resumedSession, flushedDir]
      · intro other different
        simpa [resumedSession, different] using others other different
      · exact ⟨_, by simp [resumedSession, flushedDir]; rfl, rfl, owned⟩
      · intro index
        rw [members, mem_completedOver]

/-- Preparing a download whose share has been opened is resuming the progress it was opened with. -/
theorem run_prepareDownload_of_opened {options : DownloadFileOptions} {root : PathBuf}
    (withLibrary : options.libraryRoot = some root) {outputDir : Option PathBuf}
    {peer : ConnectedDownloadPeer} {disk opened : Disk} {library : ActiveDownloadLibraryState}
    (ran : (initializeDownloadLibraryState prims (some root)
      (descriptorFromManifest prims peer.manifest) peer.fileKey outputDir options.resume).run disk =
        .ok (some library) opened) :
    (prepareDownload prims options outputDir peer).run { disk, active := none } =
      match (loadResumableChunkIndexes prims peer.manifest outputDir).run
          { disk := opened, active := some library } with
      | .ok completed session => .ok (completed, ∅) session
      | .error error session => .error error session := by
  have opening : (onDisk (initializeDownloadLibraryState prims (some root)
      (descriptorFromManifest prims peer.manifest) peer.fileKey outputDir options.resume)).run
      { disk, active := none } = _ := run_onDisk_ok ran
  simp only [prepareDownload, withLibrary, EStateM.run_bind, opening, EStateM.run_modify,
    Option.isSome_some, if_true]
  cases (loadResumableChunkIndexes prims peer.manifest outputDir).run _ <;> rfl

/-- Preparing a download over progress that can be read is resuming this progress. -/
theorem run_prepareDownload_of_stored {options : DownloadFileOptions} {root : PathBuf}
    (withLibrary : options.libraryRoot = some root) (outputDir : Option PathBuf)
    (peer : ConnectedDownloadPeer) (disk : Disk)
    (here : paths = { root, shareId := (descriptorFromManifest prims peer.manifest).shareId })
    {progress : DownloadProgress}
    (found : storedProgress prims disk paths options.resume = .ok progress) :
    ∃ opened, OpenedDir (descriptorFromManifest prims peer.manifest) peer.fileKey (disk paths)
        opened ∧
      (prepareDownload prims options outputDir peer).run { disk, active := none } =
        match (loadResumableChunkIndexes prims peer.manifest outputDir).run
            { disk := Function.update disk paths opened
              active := some { paths, progress, dirtyChunks := 0 } } with
        | .ok completed session => .ok (completed, ∅) session
        | .error error session => .error error session := by
  obtain ⟨error, unread, -⟩ | ⟨stored, opened, read, ran, dir⟩ :=
    run_initializeDownloadLibraryState prims root (descriptorFromManifest prims peer.manifest)
      peer.fileKey outputDir options.resume disk here
  · simp [found] at unread
  · obtain rfl : progress = stored := by simpa [found] using read
    exact ⟨opened, dir, run_prepareDownload_of_opened withLibrary ran⟩

/-- A prepared download over progress that can be read has resumed this progress. -/
theorem loaded_of_prepareDownload {options : DownloadFileOptions} {root : PathBuf}
    (withLibrary : options.libraryRoot = some root) {outputDir : Option PathBuf}
    {peer : ConnectedDownloadPeer} {disk : Disk}
    (here : paths = { root, shareId := (descriptorFromManifest prims peer.manifest).shareId })
    {progress : DownloadProgress}
    (found : storedProgress prims disk paths options.resume = .ok progress)
    {completed : TreeSet UInt32} {chunks : TreeMap UInt32 EncryptedChunk} {session : LibrarySession}
    (prepared : (prepareDownload prims options outputDir peer).run { disk, active := none } =
      .ok (completed, chunks) session) :
    ∃ opened, OpenedDir (descriptorFromManifest prims peer.manifest) peer.fileKey (disk paths)
        opened ∧
      (loadResumableChunkIndexes prims peer.manifest outputDir).run
        { disk := Function.update disk paths opened
          active := some { paths, progress, dirtyChunks := 0 } } = .ok completed session := by
  obtain ⟨opened, dir, ran⟩ := run_prepareDownload_of_stored withLibrary outputDir peer disk here
    found
  rw [ran] at prepared
  split at prepared
  next resumed resumed_session loaded =>
      obtain ⟨⟨rfl, -⟩, rfl⟩ : (resumed = completed ∧ ∅ = chunks) ∧ resumed_session = session := by
        simpa using prepared
      exact ⟨opened, dir, loaded⟩
  next => cases prepared

/-- Preparing a download over progress that cannot be read fails before it writes. -/
theorem run_prepareDownload_of_unread {options : DownloadFileOptions} {root : PathBuf}
    (withLibrary : options.libraryRoot = some root) (outputDir : Option PathBuf)
    (peer : ConnectedDownloadPeer) (disk : Disk)
    (here : paths = { root, shareId := (descriptorFromManifest prims peer.manifest).shareId })
    {error : FileError}
    (unread : storedProgress prims disk paths options.resume = .error error) :
    (prepareDownload prims options outputDir peer).run { disk, active := none } =
      .error (.file error) { disk, active := none } := by
  obtain ⟨failure, found, failed⟩ | ⟨progress, -, found, -⟩ :=
    run_initializeDownloadLibraryState prims root (descriptorFromManifest prims peer.manifest)
      peer.fileKey outputDir options.resume disk here
  · obtain rfl : error = failure := by simpa [unread] using found
    have opening : (onDisk (initializeDownloadLibraryState prims (some root)
        (descriptorFromManifest prims peer.manifest) peer.fileKey outputDir options.resume)).run
        { disk, active := none } = .error (.file error) { disk, active := none } :=
      EStateM.run_zoom_eq_error.mpr ⟨error, disk, failed, rfl, rfl⟩
    simp [prepareDownload, withLibrary, opening]
  · simp [unread] at found

/-- Preparing a download with a library fails before it writes, fails with the share left
downloading, or opens the library. -/
theorem run_prepareDownload {options : DownloadFileOptions} {root : PathBuf}
    (withLibrary : options.libraryRoot = some root) (outputDir : Option PathBuf)
    (peer : ConnectedDownloadPeer) (disk : Disk)
    (here : paths = { root, shareId := (descriptorFromManifest prims peer.manifest).shareId }) :
    (∃ error, storedProgress prims disk paths options.resume = .error error ∧
      (prepareDownload prims options outputDir peer).run { disk, active := none } =
        .error (.file error) { disk, active := none }) ∨
    (∃ error session, (prepareDownload prims options outputDir peer).run { disk, active := none } =
      .error error session ∧ LeftDownloading paths disk session.disk) ∨
    (∃ completed session library,
      (prepareDownload prims options outputDir peer).run { disk, active := none } =
        .ok (completed, ∅) session ∧
      DownloadRecords paths (descriptorFromManifest prims peer.manifest) peer.fileKey disk session
        library ∧
      library.dirtyChunks = 0 ∧
      (∀ index, index ∈ library.progress.completedChunks ↔ index ∈ completed) ∧
      ∃ opened handle, opened.active = some handle ∧
        (loadResumableChunkIndexes prims peer.manifest outputDir).run opened =
          .ok completed session) := by
  cases found : storedProgress prims disk paths options.resume with
  | error error =>
      exact .inl ⟨error, rfl,
        run_prepareDownload_of_unread withLibrary outputDir peer disk here found⟩
  | ok progress =>
      right
      obtain ⟨opened, dir, prepared⟩ :=
        run_prepareDownload_of_stored withLibrary outputDir peer disk here found
      have others (other : LibraryPaths) (different : other ≠ paths) :
          Function.update disk paths opened other = disk other := by simp [different]
      have shareId_eq : paths.shareId = (descriptorFromManifest prims peer.manifest).shareId := by
        rw [here]
      have dir : OpenedDir (descriptorFromManifest prims peer.manifest) peer.fileKey (disk paths)
          (Function.update disk paths opened paths) := by simpa using dir
      obtain ⟨error, failed⟩ | ⟨completed, after, library, loaded, records, clean, members⟩ :=
        @run_loadResumableChunkIndexes prims _ _ _ disk peer.manifest
          { disk := Function.update disk paths opened
            active := some { paths, progress, dirtyChunks := 0 } } _ outputDir rfl rfl dir others
      · refine .inl ⟨error, _, by rw [prepared, failed], others, ?_⟩
        obtain ⟨state, stored, mode, owner⟩ := dir.mode
        exact ⟨state, stored, mode, owner.trans shareId_eq.symm⟩
      · exact .inr ⟨completed, after, library, by rw [prepared, loaded], records, clean, members, _,
          _, rfl, loaded⟩

/-! ## The chunk loop -/

/-- What the chunk loop keeps while it fills a library: the records, and that the marked indices
are the completed ones and the one just stored. -/
structure WindowRecords (prims : Primitives) (paths : LibraryPaths) (descriptor : EtleDescriptor)
    (fileKey : SymmetricKey) (before : Disk) (state : WindowedDownload)
    (library : ActiveDownloadLibraryState) : Prop where
  records : DownloadRecords paths descriptor fileKey before state.session library
  received : ∀ frame temp, state.phase = .received frame temp →
    ∃ path, temp = some path ∧ path.paths = paths ∧ Arrived prims state.session.disk path frame
  marked : ∀ index, index ∈ library.progress.completedChunks ↔
    index ∈ state.loop.completed ∨ ∃ chunk, state.phase = .persisted index chunk

variable {peerAvailable : TreeSet UInt32} {requestWindow : Nat}

/-- Every step of the chunk loop keeps the records. -/
theorem windowRecords_of_step (state : WindowedDownload) (event : WindowEvent)
    (next : WindowedDownload)
    (kept : ∃ library, WindowRecords prims paths descriptor fileKey before state library)
    (step : (downloadMissingChunksWindowed prims outputDir peerAvailable requestWindow).step state
      event = some next) :
    ∃ library, WindowRecords prims paths descriptor fileKey before next library := by
  obtain ⟨library, records, received, marked⟩ := kept
  cases windowMove_of_step step with
  | skip running room here needless | send running room here missing has =>
      exact ⟨library, records, by simp [running], by simpa [running] using marked⟩
  | sendFails running failed | finish running full empty =>
      exact ⟨library, records, by simp, by simpa [running] using marked⟩
  | @receive reply stamp handle frame rest session running full waiting active arrived =>
      obtain ⟨same_active, only, landed⟩ := receiveChunkToFile_ok arrived
      obtain rfl : handle = library := by simpa [records.active] using active.symm
      refine ⟨handle, records.of_onlyTemp records.located only same_active, ?_,
        by simpa [running] using marked⟩
      intro other temp phase
      obtain ⟨rfl, rfl⟩ : frame = other ∧ _ = temp := by simpa using phase
      exact ⟨_, rfl, records.located, landed⟩
  | @receiveFails reply stamp handle error session running full waiting active failed =>
      obtain ⟨same_active, only⟩ := receiveChunkToFile_error failed
      obtain rfl : handle = library := by simpa [records.active] using active.symm
      exact ⟨handle, records.of_onlyTemp records.located only same_active, by simp,
        by simpa [running] using marked⟩
  | receiveMessage running full waiting active arrived =>
      simp [records.active] at active
  | receiveMessageFails running full waiting active failed =>
      simp [records.active] at active
  | @persist elapsed frame temp index chunk session phase persisted =>
      obtain ⟨path, rfl, same, arrived⟩ := received frame temp phase
      obtain ⟨found, content, entry, after, outcome, -, files, data, recorded, -⟩ |
          ⟨error, disk, outcome, -⟩ :=
        persistReply_spec outputDir elapsed records.active records.owned
          (same.trans records.located.symm) state.loop.inFlight arrived
      · obtain ⟨⟨rfl, rfl⟩, rfl⟩ : (found = index ∧ content = chunk) ∧ after = session := by
          simpa using outcome.symm.trans persisted
        obtain ⟨handle, handle_records, progress⟩ := records.of_recorded recorded
        refine ⟨handle, handle_records, by simp, fun other => ?_⟩
        rw [progress, DownloadProgress.mem_markCompleted records.ordered, marked]
        simp [phase, or_comm, eq_comm]
      · simp [outcome] at persisted
  | @persistFails elapsed frame temp error session phase failed =>
      obtain ⟨path, rfl, same, arrived⟩ := received frame temp phase
      obtain ⟨found, content, entry, after, outcome, -⟩ | ⟨cause, disk, outcome, only⟩ :=
        persistReply_spec outputDir elapsed records.active records.owned
          (same.trans records.located.symm) state.loop.inFlight arrived
      · simp [outcome] at failed
      · obtain ⟨-, rfl⟩ : cause = error ∧ _ = session := by
          simpa using outcome.symm.trans failed
        exact ⟨library, records.of_onlyTemp same only rfl, by simp, by simpa [phase] using marked⟩
  | @complete index chunk window since chunks persisted kept positive =>
      refine ⟨library, records, by simp, fun other => ?_⟩
      rw [marked, TreeSet.mem_insert, Std.LawfulEqCmp.compare_eq_iff_eq]
      simp [persisted, or_comm]

/-- The records at the end of a run of the chunk loop. -/
theorem windowRecords_of_run {manifest : Manifest} {completed : TreeSet UInt32}
    {chunks : TreeMap UInt32 EncryptedChunk} {session : LibrarySession}
    {library : ActiveDownloadLibraryState} {events : List WindowEvent} {state : WindowedDownload}
    (records : DownloadRecords paths descriptor fileKey before session library)
    (marked : ∀ index, index ∈ library.progress.completedChunks ↔ index ∈ completed)
    (run : (downloadMissingChunksWindowed prims outputDir peerAvailable requestWindow).run
      (.initial manifest completed chunks session requestWindow) events = some state) :
    ∃ final, WindowRecords prims paths descriptor fileKey before state final := by
  refine Machine.invariant_of_reaches windowRecords_of_step ⟨library, records, ?_, ?_⟩
    ⟨events, run⟩
  · intro frame temp phase
    simp [WindowedDownload.initial] at phase
  · intro index
    simpa [WindowedDownload.initial, WindowLoop.initial] using marked index

end

end Etle
