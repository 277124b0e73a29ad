import Etle.Foundations.SharedStore
import Etle.Transfer.DeletedShare

/-!
# A download works on one share

Every operation of a download reads and writes the directory of its own share and the state it
keeps in memory, and nothing else.  The chunk loop and the parallel workers are therefore confined
to this directory among all the directories of all libraries.
-/

namespace Etle

open Std (TreeMap TreeSet)

/-- The directory of one share. -/
def dirLens (paths : LibraryPaths) : Lens Disk ShareDir where
  get disk := disk paths
  put dir disk := Function.update disk paths dir
  get_put _ _ := Function.update_self ..
  put_get _ := Function.update_eq_self ..
  put_put _ _ _ := Function.update_idem ..

/-- The directory of one share, and the library state of a download. -/
def shareLens (paths : LibraryPaths) :
    Lens LibrarySession (ShareDir × Option ActiveDownloadLibraryState) where
  get session := (session.disk paths, session.active)
  put part session := { disk := Function.update session.disk paths part.1, active := part.2 }
  get_put part session := by simp
  put_get session := by simp
  put_put first second session := by simp

/-- The library state of a download, if it has one, is that of the share. -/
def OpensShare (paths : LibraryPaths) (part : ShareDir × Option ActiveDownloadLibraryState) :
    Prop :=
  ∀ library, part.2 = some library → library.paths = paths

section Operations

variable {prims : Primitives} {paths : LibraryPaths} (outputDir : Option PathBuf)

/-- A disk operation works on the directory of the share. -/
abbrev OnDir (paths : LibraryPaths) {α : Type} (operation : OnDisk α) : Prop :=
  EStateM.ActsOn (dirLens paths) (fun _ => True) operation

/-- A session operation works on the directory of the share and on its library state. -/
abbrev OnShare (paths : LibraryPaths) {α : Type} (operation : OnLibrary α) : Prop :=
  EStateM.ActsOn (shareLens paths) (OpensShare paths) operation

theorem onDir_changeShare (paths : LibraryPaths) (change : ShareDir → ShareDir) :
    OnDir paths (changeShare paths change) :=
  .modify (fun _ => rfl) fun _ _ => trivial

theorem onDir_createShareDirs (paths : LibraryPaths) : OnDir paths (createShareDirs paths) :=
  onDir_changeShare paths _

theorem onDir_writeChunk (paths : LibraryPaths) (chunk : EncryptedChunk) :
    OnDir paths (writeChunk paths chunk) :=
  onDir_changeShare paths _

/-- A disk operation of a session leaves the library state alone. -/
theorem onShare_onDisk {α : Type} {operation : OnDisk α} (acts : OnDir paths operation) :
    OnShare paths (onDisk operation) := by
  constructor
  · intro session opens
    simpa [final_onDisk, shareLens, OpensShare] using opens
  · intro session other _ same
    obtain ⟨same_dir, same_active⟩ : other.disk paths = session.disk paths ∧
        other.active = session.active := by simpa [shareLens] using same
    have agreed := acts.agrees session.disk other.disk trivial same_dir
    rw [onDisk, EStateM.run_zoom, EStateM.run_zoom, agreed]
    cases operation.run session.disk <;>
      simp [EStateM.Result.onto, shareLens, dirLens, same_active]

theorem onShare_setActive {active : Option ActiveDownloadLibraryState}
    (opens : ∀ library, active = some library → library.paths = paths) :
    OnShare paths (modify fun session => { session with active }) := by
  let moved (part : ShareDir × Option ActiveDownloadLibraryState) := (part.1, active)
  have acts (session : LibrarySession) : ({ session with active } : LibrarySession) =
      (shareLens paths).put (moved ((shareLens paths).get session)) session := by
    simp [moved, shareLens]
  exact .modify acts fun _ _ => opens

/-- The library state of a download of the share. -/
theorem opens_some {library : ActiveDownloadLibraryState} (here : library.paths = paths) :
    ∀ opened, some library = some opened → opened.paths = paths := by
  rintro opened ⟨⟩
  exact here

theorem onShare_receiveChunkToFile {temp : TempPath} (here : temp.paths = paths)
    (frames : List Frame) : OnShare paths (receiveChunkToFile prims temp frames) := by
  subst here
  cases frames with
  | nil => exact .throw _
  | cons head rest =>
      cases head with
      | encoded message => exact .pure _
      | raw index data => exact .bind (onShare_onDisk (onDir_changeShare _ _)) fun _ => .pure _
      | cut index data => exact .bind (onShare_onDisk (onDir_changeShare _ _)) fun _ => .throw _
      | invalid error => exact .throw _

theorem onShare_removeFileIfExists {temp : TempPath} (here : temp.paths = paths) :
    OnShare paths (onDisk (removeFileIfExists temp)) := by
  subst here
  refine onShare_onDisk ?_
  rw [removeFileIfExists, removeFile]
  exact onDir_changeShare _ _

theorem onDir_renameToChunk {temp : TempPath} (here : temp.paths = paths) (index : UInt32) :
    OnDir paths (renameToChunk temp paths index) := by
  subst here
  let view (dir : ShareDir) : OnDisk Unit :=
    (dir.chunks (.part temp.index temp.suffix)).elim (throw (.io .notFound)) fun data => do
      removeFile temp.paths (.part temp.index temp.suffix)
      writeFile temp.paths (.chunk index) data
  refine .bind (onDir_changeShare _ _) fun _ => .get_bind view (fun disk => ?_) fun dir _ => ?_
  · change _ = view (disk temp.paths)
    dsimp only [view]
    cases (disk temp.paths).chunks (.part temp.index temp.suffix) <;> rfl
  · dsimp only [view]
    cases dir.chunks (.part temp.index temp.suffix) with
    | none => exact .throw _
    | some data => exact .bind (onDir_changeShare _ _) fun _ => onDir_changeShare _ _

theorem onDir_writeRecords (mode : ShareMode) (progress : DownloadProgress) :
    OnDir paths (writeRecords paths mode outputDir progress) :=
  .bind (.bind (.liftExcept _ _) fun _ => onDir_changeShare _ _) fun _ =>
    .bind (.liftExcept _ _) fun _ => onDir_changeShare _ _

theorem onShare_flushDownloadProgress (mode : ShareMode) {library : ActiveDownloadLibraryState}
    (here : library.paths = paths) :
    OnShare paths (flushDownloadProgress mode outputDir library) := by
  subst here
  exact .bind (onShare_onDisk (onDir_writeRecords outputDir mode _)) fun _ =>
    onShare_setActive (opens_some rfl)

theorem onShare_recordChunk (index : UInt32) (elapsed : Bool)
    {library : ActiveDownloadLibraryState} (here : library.paths = paths) :
    OnShare paths (recordChunk index outputDir elapsed library) := by
  subst here
  refine .bind (onShare_setActive (opens_some rfl)) fun _ => ?_
  split
  · exact onShare_flushDownloadProgress outputDir _ rfl
  · exact .pure _

/-- What an operation does with the library state it finds decides what it works on. -/
theorem onShare_of_active {α : Type} {operation : OnLibrary α}
    (acts : ∀ active : Option ActiveDownloadLibraryState,
      (∀ library, active = some library → library.paths = paths) →
      ∃ view, OnShare paths view ∧
        ∀ session, session.active = active → operation.run session = view.run session) :
    OnShare paths operation := by
  constructor
  · intro session opens
    obtain ⟨view, acts_view, same⟩ := acts session.active opens
    rw [same session rfl]
    exact acts_view.keeps session opens
  · intro session other opens equal
    obtain ⟨view, acts_view, same⟩ := acts session.active opens
    have same_active : other.active = session.active := congrArg Prod.snd equal
    rw [same session rfl, same other same_active]
    exact acts_view.agrees session other opens equal

/-- Moving a received file into the library works on the share. -/
theorem onShare_persistDownloadedChunkFile {temp : TempPath} (here : temp.paths = paths)
    (index : UInt32) (elapsed : Bool) :
    OnShare paths (persistDownloadedChunkFile index temp outputDir elapsed) := by
  refine onShare_of_active fun active opens => ?_
  cases active with
  | none =>
      refine ⟨_, onShare_removeFileIfExists here, fun session none => ?_⟩
      rw [persistDownloadedChunkFile, EStateM.run_get_bind, none]
  | some library =>
      obtain rfl := opens library rfl
      refine ⟨_, .bind (onShare_onDisk (onDir_createShareDirs _)) fun _ =>
        .bind (onShare_onDisk (onDir_renameToChunk here index)) fun _ =>
          onShare_recordChunk outputDir index elapsed rfl, fun session found => ?_⟩
      rw [persistDownloadedChunkFile, EStateM.run_get_bind, found]

/-- Writing a received chunk into the library works on the share. -/
theorem onShare_persistDownloadedChunk (chunk : EncryptedChunk) (elapsed : Bool) :
    OnShare paths (persistDownloadedChunk chunk outputDir elapsed) := by
  refine onShare_of_active fun active opens => ?_
  cases active with
  | none =>
      refine ⟨_, .pure (), fun session none => ?_⟩
      rw [persistDownloadedChunk, EStateM.run_get_bind, none]
  | some library =>
      obtain rfl := opens library rfl
      refine ⟨_, .bind (onShare_onDisk (onDir_writeChunk _ chunk)) fun _ =>
        onShare_recordChunk outputDir chunk.index elapsed rfl, fun session found => ?_⟩
      rw [persistDownloadedChunk, EStateM.run_get_bind, found]

/-- Setting the share to completed works on the share. -/
theorem onShare_markDownloadLibraryComplete :
    OnShare paths (markDownloadLibraryComplete outputDir) := by
  refine onShare_of_active fun active opens => ?_
  cases active with
  | none =>
      refine ⟨_, .pure (), fun session none => ?_⟩
      rw [markDownloadLibraryComplete, EStateM.run_get_bind, none]
  | some library =>
      obtain rfl := opens library rfl
      have stored : OnDir library.paths (writeState library.paths
          (ShareState.fromProgress .completed outputDir library.progress)) :=
        .bind (.liftExcept _ _) fun _ => onDir_changeShare _ _
      by_cases dirty : 0 < library.dirtyChunks
      · refine ⟨_, .bind (onShare_flushDownloadProgress outputDir .downloading rfl)
          fun _ => onShare_onDisk stored, fun session found => ?_⟩
        rw [markDownloadLibraryComplete, EStateM.run_get_bind, found]
        simp [dirty]
      · refine ⟨_, onShare_onDisk stored, fun session found => ?_⟩
        rw [markDownloadLibraryComplete, EStateM.run_get_bind, found]
        simp [dirty]

theorem onShare_discardTemp {temp : Option TempPath}
    (here : ∀ path, temp = some path → path.paths = paths) :
    OnShare paths (discardTemp temp) := by
  cases temp with
  | none => exact .pure _
  | some path => exact onShare_removeFileIfExists (here path rfl)

/-- The store of the chunk loop works on the share. -/
theorem onShare_persistReply (inFlight : TreeMap UInt32 ChunkMeta) (elapsed : Bool)
    (frame : ReceivedChunkFrame) {temp : Option TempPath}
    (here : ∀ path, temp = some path → path.paths = paths) :
    OnShare paths (persistReply prims outputDir inFlight elapsed frame temp) := by
  cases frame with
  | rawChunkFile index dataLen blake3Hash =>
      cases temp with
      | none => exact .throw _
      | some path =>
          refine .bind (.liftExcept _ _) fun entry => ?_
          split
          · exact .bind (onShare_removeFileIfExists (here path rfl)) fun _ => .throw _
          · exact .bind (onShare_persistDownloadedChunkFile outputDir (here path rfl) index elapsed)
              fun _ => .pure _
  | message message =>
      cases message with
      | chunk index data =>
          refine .bind (onShare_discardTemp here) fun _ => .bind (.liftExcept _ _) fun entry => ?_
          split
          · exact .throw _
          · exact .bind (onShare_persistDownloadedChunk outputDir _ elapsed) fun _ => .pure _
      | hello | capabilities | keyExchange | authProof | requestManifest | requestShare | manifest
      | wrappedFileKey | «have» | requestChunk | error =>
          exact .bind (onShare_discardTemp here) fun _ => .throw _

/-- The store of a parallel worker works on the share. -/
theorem onShare_storeReceivedChunk (entry : ChunkMeta) {temp : TempPath}
    (here : temp.paths = paths) (elapsed : Bool) (frame : ReceivedChunkFrame) :
    OnShare paths (storeReceivedChunk prims outputDir entry temp elapsed frame) := by
  have removed := onShare_removeFileIfExists here
  cases frame with
  | rawChunkFile index dataLen blake3Hash =>
      rw [storeReceivedChunk]
      split
      · exact .bind removed fun _ => .throw _
      · split
        · exact .bind removed fun _ => .throw _
        · exact .bind (onShare_persistDownloadedChunkFile outputDir here _ elapsed) fun _ => .pure _
  | message message =>
      cases message with
      | chunk index data =>
          rw [storeReceivedChunk]
          refine .bind removed fun _ => ?_
          split
          · exact .throw _
          · split
            · exact .throw _
            · exact .bind (onShare_persistDownloadedChunk outputDir _ elapsed) fun _ => .pure _
      | hello | capabilities | keyExchange | authProof | requestManifest | requestShare | manifest
      | wrappedFileKey | «have» | requestChunk | error =>
          exact .bind removed fun _ => .throw _

/-! ## Opening the library -/

theorem onDir_initializeDownloadLibraryState {root : Option PathBuf} {descriptor : EtleDescriptor}
    (here : ∀ directory, root = some directory →
      paths = { root := directory, shareId := descriptor.shareId })
    (fileKey : SymmetricKey) (resume : Bool) :
    OnDir paths
      (initializeDownloadLibraryState prims root descriptor fileKey outputDir resume) := by
  cases root with
  | none => exact .pure _
  | some root =>
      obtain rfl := here root rfl
      refine .get_bind (fun dir => do
        let progress ← EStateM.liftExcept id (storedProgress prims (fun _ => dir)
          { root, shareId := descriptor.shareId } resume)
        let paths ← libraryInit root descriptor fileKey .downloading outputDir
        if progress.completedChunks.isEmpty then
          return some { paths, progress, dirtyChunks := 0 }
        else
          writeRecords paths .downloading outputDir progress
          return some { paths, progress, dirtyChunks := 0 }) (fun _ => rfl) fun dir _ => ?_
      refine .bind (.liftExcept _ _) fun progress => .bind_of_returns ?_ ?_
      · exact .bind (onDir_createShareDirs _) fun _ =>
          .bind (.bind (.liftExcept _ _) fun _ => onDir_changeShare _ _) fun _ =>
          .bind (.bind (.liftExcept _ _) fun _ => onDir_changeShare _ _) fun _ =>
          .bind (.bind (.liftExcept _ _) fun _ => onDir_changeShare _ _) fun _ =>
          .bind (.bind (.liftExcept _ _) fun _ => onDir_changeShare _ _) fun _ => .pure _
      · rintro found ⟨disk, after, -, ran⟩
        obtain ⟨rfl, -⟩ : _ = found ∧ _ = after := by simpa [run_libraryInit] using ran
        split
        · exact .pure _
        · exact .bind (onDir_writeRecords outputDir _ _) fun _ => .pure _

/-- What can be resumed is decided by the directory of the share. -/
theorem resumableEntries_congr {disk other : Disk} {library : ActiveDownloadLibraryState}
    (same : other library.paths = disk library.paths) (entries : List ChunkMeta) :
    resumableEntries prims other library entries = resumableEntries prims disk library entries := by
  have has (index : UInt32) :
      hasChunk other library.paths index = hasChunk disk library.paths index :=
    by rw [hasChunk, same, hasChunk]
  have read (index : UInt32) (size : UInt64) :
      readChunk other library.paths index size = readChunk disk library.paths index size := by
    unfold readChunk
    rw [same]
  induction entries with
  | nil => rfl
  | cons entry rest ih => simp only [resumableEntries, has, read, ih]

theorem onShare_storeResumed (prims : Primitives) (manifest : Manifest)
    {library : ActiveDownloadLibraryState} (here : library.paths = paths) :
    OnShare paths (storeResumed prims manifest outputDir library) := by
  subst here
  refine .get_bind (fun part => do
    let valid ← EStateM.liftExcept .file
      (resumableEntries prims (fun _ => part.1) library manifest.chunks)
    let progress := progressOver library.paths.shareId (valid.map Prod.fst)
    modify fun session => { session with active := some { library with progress } }
    onDisk (writeRecords library.paths .downloading outputDir progress)
    return valid) (fun session => ?_) fun part _ => ?_
  · have same := @resumableEntries_congr prims session.disk
      (fun _ => session.disk library.paths) library rfl manifest.chunks
    dsimp only [shareLens]
    rw [same]
  · exact .bind (.liftExcept _ _) fun valid => .bind (onShare_setActive (opens_some rfl)) fun _ =>
      .bind (onShare_onDisk (onDir_writeRecords outputDir _ _)) fun _ => .pure _

theorem onShare_loadResumableChunkIndexes (manifest : Manifest) :
    OnShare paths (loadResumableChunkIndexes prims manifest outputDir) := by
  refine onShare_of_active fun active opens => ?_
  cases active with
  | none =>
      refine ⟨_, .pure ∅, fun session none => ?_⟩
      rw [loadResumableChunkIndexes, EStateM.run_get_bind, none]
  | some library =>
      refine ⟨_, .bind (onShare_storeResumed outputDir prims manifest (opens library rfl))
        fun valid =>
        .pure (completedOver (valid.map Prod.fst)), fun session found => ?_⟩
      rw [loadResumableChunkIndexes, EStateM.run_get_bind, found]

theorem onShare_loadResumableChunks (manifest : Manifest) :
    OnShare paths (loadResumableChunks prims manifest outputDir) := by
  refine onShare_of_active fun active opens => ?_
  cases active with
  | none =>
      refine ⟨_, .pure ∅, fun session none => ?_⟩
      rw [loadResumableChunks, EStateM.run_get_bind, none]
  | some library =>
      refine ⟨_, .bind (onShare_storeResumed outputDir prims manifest (opens library rfl))
        fun valid =>
        .pure (valid.foldl (fun chunks found => chunks.insert found.1.index found.2) ∅),
        fun session found => ?_⟩
      rw [loadResumableChunks, EStateM.run_get_bind, found]

/-- Opening the library gives the library state of the share, if any. -/
theorem paths_of_initializeDownloadLibraryState {root : Option PathBuf}
    {descriptor : EtleDescriptor}
    (here : ∀ directory, root = some directory →
      paths = { root := directory, shareId := descriptor.shareId })
    {fileKey : SymmetricKey} {resume : Bool} {session after : LibrarySession}
    {active : Option ActiveDownloadLibraryState}
    (ran : (onDisk (initializeDownloadLibraryState prims root descriptor fileKey outputDir
      resume)).run session = .ok active after) :
    ∀ library, active = some library → library.paths = paths := by
  obtain ⟨disk, opened, -⟩ := EStateM.run_zoom_eq_ok.mp ran
  cases root with
  | none =>
      obtain ⟨rfl, -⟩ : none = active ∧ session.disk = disk := by
        simpa [initializeDownloadLibraryState] using opened
      rintro library ⟨⟩
  | some root =>
      obtain ⟨error, -, failed⟩ | ⟨progress, dir, -, found, -⟩ :=
        run_initializeDownloadLibraryState prims root descriptor fileKey outputDir resume
          session.disk (here root rfl)
      · cases failed.symm.trans opened
      · cases found.symm.trans opened
        exact opens_some rfl

/-- Preparing a download works on the share, if there is a library. -/
theorem onShare_prepareDownload {options : DownloadFileOptions} {peer : ConnectedDownloadPeer}
    (here : ∀ root, options.libraryRoot = some root →
      paths = { root, shareId := (descriptorFromManifest prims peer.manifest).shareId }) :
    OnShare paths (prepareDownload prims options outputDir peer) := by
  refine .bind_of_returns (onShare_onDisk (onDir_initializeDownloadLibraryState outputDir here _ _))
    ?_
  rintro active ⟨session, after, -, opened⟩
  refine .bind (onShare_setActive (paths_of_initializeDownloadLibraryState outputDir here opened))
    fun _ => ?_
  split
  · exact .bind (onShare_loadResumableChunkIndexes outputDir _) fun _ => .pure _
  · exact .bind (onShare_loadResumableChunks outputDir _) fun _ => .pure _

/-- Opening the library for a parallel download works on the share, if there is a library. -/
theorem onShare_prepareParallel {options : DownloadFileOptions} {outputPath : PathBuf}
    {manifest : Manifest} {fileKey : SymmetricKey}
    (here : ∀ root, options.libraryRoot = some root →
      paths = { root, shareId := (descriptorFromManifest prims manifest).shareId }) :
    OnShare paths (prepareParallel prims outputPath options manifest fileKey) := by
  refine .bind_of_returns (onShare_onDisk (onDir_initializeDownloadLibraryState _ here _ _)) ?_
  rintro active ⟨session, after, -, opened⟩
  refine .bind (onShare_setActive (paths_of_initializeDownloadLibraryState _ here opened))
    fun _ => ?_
  split
  · exact .throw _
  · exact onShare_loadResumableChunkIndexes _ _

/-! ## What an operation on a share means for a session -/

/-- The library state of the session is that of the share. -/
def LibrarySession.OpensShare (paths : LibraryPaths) (session : LibrarySession) : Prop :=
  ∀ library, session.active = some library → library.paths = paths

/-- The session over another disk with the same share directory. -/
def LibrarySession.over (session : LibrarySession) (disk : Disk) : LibrarySession :=
  { session with disk }

variable {α : Type} {operation : OnLibrary α} {session next : LibrarySession} {value : α}
  {error : NetworkError} {disk : Disk}

@[simp]
theorem over_active (session : LibrarySession) (disk : Disk) :
    (session.over disk).active = session.active := rfl

theorem OnShare.opens_ok (acts : OnShare paths operation) (opens : session.OpensShare paths)
    (ran : operation.run session = .ok value next) : next.OpensShare paths := by
  have kept := acts.keeps session opens
  rwa [ran] at kept

theorem OnShare.opens_error (acts : OnShare paths operation) (opens : session.OpensShare paths)
    (ran : operation.run session = .error error next) : next.OpensShare paths := by
  have kept := acts.keeps session opens
  rwa [ran] at kept

theorem OnShare.others_final (acts : OnShare paths operation) (opens : session.OpensShare paths)
    {other : LibraryPaths} (different : other ≠ paths) :
    (operation.run session).final.disk other = session.disk other := by
  rw [acts.final_eq opens]
  simp [shareLens, different]

theorem OnShare.others_ok (acts : OnShare paths operation) (opens : session.OpensShare paths)
    (ran : operation.run session = .ok value next) {other : LibraryPaths}
    (different : other ≠ paths) : next.disk other = session.disk other := by
  simpa [ran] using acts.others_final opens different

theorem OnShare.others_error (acts : OnShare paths operation) (opens : session.OpensShare paths)
    (ran : operation.run session = .error error next) {other : LibraryPaths}
    (different : other ≠ paths) : next.disk other = session.disk other := by
  simpa [ran] using acts.others_final opens different

theorem OnShare.over_ok (acts : OnShare paths operation) (opens : session.OpensShare paths)
    (same : disk paths = session.disk paths) (ran : operation.run session = .ok value next) :
    operation.run (session.over disk) =
      .ok value (next.over (Function.update disk paths (next.disk paths))) :=
  acts.run_ok opens (by simp [shareLens, LibrarySession.over, same]) ran

theorem OnShare.over_error (acts : OnShare paths operation) (opens : session.OpensShare paths)
    (same : disk paths = session.disk paths) (ran : operation.run session = .error error next) :
    operation.run (session.over disk) =
      .error error (next.over (Function.update disk paths (next.disk paths))) :=
  acts.run_error opens (by simp [shareLens, LibrarySession.over, same]) ran

end Operations

section Windowed

variable {prims : Primitives} {paths : LibraryPaths} {outputDir : Option PathBuf}
  {peerAvailable : TreeSet UInt32} {requestWindow : Nat}

/-- The disk of the chunk loop. -/
def windowLens : Lens WindowedDownload Disk where
  get state := state.session.disk
  put disk state := { state with session := state.session.over disk }
  get_put _ _ := rfl
  put_get _ := rfl
  put_put _ _ _ := rfl

/-- The chunk loop works on the share. -/
structure WindowedDownload.WorksOn (paths : LibraryPaths) (state : WindowedDownload) : Prop where
  opens : state.session.OpensShare paths
  temps : ∀ temp, state.phase.temp = some temp → temp.paths = paths

theorem requestNext_put (peerAvailable : TreeSet UInt32) (disk : Disk) (state : WindowedDownload)
    (failure : Option ErrorKind) :
    requestNext peerAvailable (windowLens.put disk state) failure =
      (requestNext peerAvailable state failure).map (windowLens.put disk) := by
  obtain ⟨loop, session, phase⟩ := state
  cases phase with
  | running =>
      cases turn : loop.next peerAvailable with
      | none => simp [requestNext, windowLens, turn]
      | some found =>
          obtain ⟨request, after⟩ := found
          cases request <;> cases failure <;> simp [requestNext, windowLens, turn]
  | received | persisted | ended => rfl

theorem completeNext_put (disk : Disk) (state : WindowedDownload) (maxRequestWindow : Nat) :
    completeNext maxRequestWindow (windowLens.put disk state) =
      (completeNext maxRequestWindow state).map (windowLens.put disk) := by
  obtain ⟨loop, session, phase⟩ := state
  cases phase <;> rfl

theorem finishLoop_put (peerAvailable : TreeSet UInt32) (disk : Disk) (state : WindowedDownload) :
    finishLoop peerAvailable (windowLens.put disk state) =
      (finishLoop peerAvailable state).map (windowLens.put disk) := by
  obtain ⟨loop, session, phase⟩ := state
  cases phase with
  | running =>
      cases turn : loop.next peerAvailable with
      | none =>
          cases empty : loop.inFlight.isEmpty <;> simp [finishLoop, windowLens, turn, empty]
      | some found => simp [finishLoop, windowLens, turn]
  | received | persisted | ended => rfl

/-- With a library the loop receives into the temporary file of its share. -/
theorem receiveNext_of_active {loop : WindowLoop} {session : LibrarySession}
    {library : ActiveDownloadLibraryState} (turn : loop.next peerAvailable = none)
    (waiting : loop.inFlight.isEmpty = false) (active : session.active = some library)
    (reply : Option Frame) (stagingTimestamp : Nat) :
    receiveNext prims peerAvailable { loop, session, phase := .running } reply stagingTimestamp =
      match (receiveChunkToFile prims (library.temp 0 stagingTimestamp) reply.toList).run
          session with
      | .ok (frame, _) session =>
          some { loop, session, phase := .received frame (some (library.temp 0 stagingTimestamp)) }
      | .error error session => some { loop, session, phase := .ended (.error error) } := by
  cases arrived : (receiveChunkToFile prims (library.temp 0 stagingTimestamp) reply.toList).run
      session <;>
    simp only [ActiveDownloadLibraryState.temp] at arrived <;>
    simp [receiveNext, turn, waiting, WindowedDownload.streamingToLibrary, active, arrived,
      downloadChunkTempPath, activeDownloadState, bind, Except.bind, pure, Except.pure,
      ActiveDownloadLibraryState.temp]

/-- Without a library the loop receives a message, whatever is on disk. -/
theorem receiveNext_of_inactive (prims : Primitives) (peerAvailable : TreeSet UInt32)
    {state : WindowedDownload} (inactive : state.session.active = none)
    (disk : Disk) (reply : Option Frame) (stagingTimestamp : Nat) :
    receiveNext prims peerAvailable (windowLens.put disk state) reply stagingTimestamp =
      (receiveNext prims peerAvailable state reply stagingTimestamp).map
        (windowLens.put disk) := by
  obtain ⟨loop, session, phase⟩ := state
  cases phase with
  | running =>
      cases turn : loop.next peerAvailable with
      | none =>
          cases empty : loop.inFlight.isEmpty <;>
            cases arrived : receiveFrame reply.toList <;>
              simp_all [receiveNext, windowLens, WindowedDownload.streamingToLibrary]
      | some found => simp [receiveNext, windowLens, turn]
  | received | persisted | ended => rfl

/-- A receive over another disk with the same share directory does the same there. -/
theorem receiveNext_over {loop : WindowLoop} {session : LibrarySession}
    {library : ActiveDownloadLibraryState} {disk : Disk} {next : WindowedDownload}
    {reply : Option Frame} {stagingTimestamp : Nat} (opens : session.OpensShare paths)
    (same : disk paths = session.disk paths) (turn : loop.next peerAvailable = none)
    (waiting : loop.inFlight.isEmpty = false) (active : session.active = some library)
    (step : receiveNext prims peerAvailable { loop, session, phase := .running } reply
      stagingTimestamp = some next) :
    receiveNext prims peerAvailable { loop, session := session.over disk, phase := .running } reply
      stagingTimestamp =
        some (windowLens.put (Function.update disk paths (next.session.disk paths)) next) := by
  have acts := @onShare_receiveChunkToFile prims paths (library.temp 0 stagingTimestamp)
    (opens library active) reply.toList
  have active_over : (session.over disk).active = some library := active
  rw [receiveNext_of_active turn waiting active] at step
  rw [receiveNext_of_active turn waiting active_over]
  cases arrived : (receiveChunkToFile prims (library.temp 0 stagingTimestamp) reply.toList).run
      session with
  | ok found after =>
      rw [arrived] at step
      obtain rfl := Option.some.inj step
      rw [acts.over_ok opens same arrived]
      rfl
  | error error after =>
      rw [arrived] at step
      obtain rfl := Option.some.inj step
      rw [acts.over_error opens same arrived]
      rfl

/-- A store over another disk with the same share directory does the same there. -/
theorem persistNext_over {loop : WindowLoop} {session : LibrarySession}
    {frame : ReceivedChunkFrame} {temp : Option TempPath} {disk : Disk} {next : WindowedDownload}
    {elapsed : Bool} (opens : session.OpensShare paths)
    (here : ∀ path, temp = some path → path.paths = paths) (same : disk paths = session.disk paths)
    (step : persistNext prims outputDir { loop, session, phase := .received frame temp } elapsed =
      some next) :
    persistNext prims outputDir
        { loop, session := session.over disk, phase := .received frame temp } elapsed =
      some (windowLens.put (Function.update disk paths (next.session.disk paths)) next) := by
  have acts := @onShare_persistReply prims paths outputDir loop.inFlight elapsed frame temp here
  unfold persistNext at step ⊢
  dsimp only at step ⊢
  cases persisted : (persistReply prims outputDir loop.inFlight elapsed frame temp).run session with
  | ok found after =>
      rw [persisted] at step
      obtain rfl := Option.some.inj step
      rw [acts.over_ok opens same persisted]
      rfl
  | error error after =>
      rw [persisted] at step
      obtain rfl := Option.some.inj step
      rw [acts.over_error opens same persisted]
      rfl

/-- The chunk loop is confined to the directory of its share. -/
theorem confinedTo_downloadMissingChunksWindowed :
    (downloadMissingChunksWindowed prims outputDir peerAvailable requestWindow).ConfinedTo
      windowLens paths (WindowedDownload.WorksOn paths) where
  keeps state event next works step := by
    obtain ⟨opens, temps⟩ := works
    cases windowMove_of_step step with
    | skip running | send running => exact ⟨opens, temps⟩
    | sendFails | receiveMessage | receiveMessageFails | finish =>
        exact ⟨opens, by simp [WindowPhase.temp]⟩
    | complete persisted => exact ⟨opens, by simp [WindowPhase.temp]⟩
    | @receive reply stagingTimestamp library frame rest session running full waiting active
        arrived =>
        have acts := @onShare_receiveChunkToFile prims paths
          { paths := library.paths, index := 0, suffix := stagingTimestamp } (opens library active)
          reply.toList
        refine ⟨acts.opens_ok opens arrived, fun temp found => ?_⟩
        obtain rfl : _ = temp := by simpa [WindowPhase.temp] using found
        exact opens library active
    | @receiveFails reply stagingTimestamp library error session running full waiting active
        failed =>
        have acts := @onShare_receiveChunkToFile prims paths
          { paths := library.paths, index := 0, suffix := stagingTimestamp } (opens library active)
          reply.toList
        exact ⟨acts.opens_error opens failed, by simp [WindowPhase.temp]⟩
    | @persist elapsed frame temp index chunk session received persisted =>
        have acts := @onShare_persistReply prims paths outputDir state.loop.inFlight elapsed frame
          temp (by simpa [received, WindowPhase.temp] using temps)
        exact ⟨acts.opens_ok opens persisted, by simp [WindowPhase.temp]⟩
    | @persistFails elapsed frame temp error session received failed =>
        have acts := @onShare_persistReply prims paths outputDir state.loop.inFlight elapsed frame
          temp (by simpa [received, WindowPhase.temp] using temps)
        exact ⟨acts.opens_error opens failed, by simp [WindowPhase.temp]⟩
  blind disk state works := ⟨works.opens, works.temps⟩
  others state event next works step other different := by
    obtain ⟨opens, temps⟩ := works
    cases windowMove_of_step step with
    | skip | send | sendFails | receiveMessage | receiveMessageFails | finish | complete => rfl
    | receive running full waiting active arrived =>
        exact (onShare_receiveChunkToFile (opens _ active) _).others_ok opens arrived different
    | receiveFails running full waiting active failed =>
        exact (onShare_receiveChunkToFile (opens _ active) _).others_error opens failed different
    | persist received persisted =>
        exact (onShare_persistReply outputDir _ _ _
          (by simpa [received, WindowPhase.temp] using temps)).others_ok opens persisted different
    | persistFails received failed =>
        exact (onShare_persistReply outputDir _ _ _
          (by simpa [received, WindowPhase.temp] using temps)).others_error opens failed different
  acts state event next disk works same step := by
    obtain ⟨opens, temps⟩ := works
    have quiet (after : WindowedDownload) (untouched : after.session = state.session) :
        windowLens.put disk after =
          windowLens.put (Function.update disk paths (windowLens.get after paths)) after := by
      have directory : windowLens.get after paths = disk paths :=
        (congrArg (fun session => session.disk paths) untouched).trans same.symm
      rw [directory, Function.update_eq_self]
    have moved := windowMove_of_step step
    cases event with
    | request failure =>
        have taken : requestNext peerAvailable state failure = some next := step
        have again := requestNext_put peerAvailable disk state failure
        rw [taken] at again
        refine again.trans (congrArg some (quiet next ?_))
        cases moved <;> rfl
    | complete =>
        have taken : completeNext (max requestWindow 1) state = some next := step
        have again := completeNext_put disk state (max requestWindow 1)
        rw [taken] at again
        refine again.trans (congrArg some (quiet next ?_))
        cases moved
        rfl
    | finish =>
        have taken : finishLoop peerAvailable state = some next := step
        have again := finishLoop_put peerAvailable disk state
        rw [taken] at again
        refine again.trans (congrArg some (quiet next ?_))
        cases moved
        rfl
    | receive reply stagingTimestamp =>
        have taken :
            receiveNext prims peerAvailable state reply stagingTimestamp = some next := step
        cases moved with
        | receive running full waiting active arrived =>
            obtain ⟨loop, session, phase⟩ := state
            obtain rfl : phase = .running := running
            exact receiveNext_over opens same full waiting active taken
        | receiveFails running full waiting active failed =>
            obtain ⟨loop, session, phase⟩ := state
            obtain rfl : phase = .running := running
            exact receiveNext_over opens same full waiting active taken
        | receiveMessage _ _ _ inactive | receiveMessageFails _ _ _ inactive =>
            have again := receiveNext_of_inactive prims peerAvailable inactive disk reply
              stagingTimestamp
            rw [taken] at again
            exact again.trans (congrArg some (quiet _ rfl))
    | persist elapsed =>
        have taken : persistNext prims outputDir state elapsed = some next := step
        obtain ⟨loop, session, phase⟩ := state
        cases moved with
        | persist received | persistFails received =>
            obtain rfl : phase = .received _ _ := received
            exact persistNext_over opens (by simpa [WindowPhase.temp] using temps) same taken

end Windowed

section Workers

variable {prims : Primitives} {paths : LibraryPaths} {manifest : Manifest}
  {outputDir : Option PathBuf} {peerCount : Nat} {available : Fin peerCount → TreeSet UInt32}

/-- The disk of the parallel workers. -/
def workersLens : Lens (ParallelDownload peerCount) Disk where
  get state := state.session.disk
  put disk state := { state with session := state.session.over disk }
  get_put _ _ := rfl
  put_get _ := rfl
  put_put _ _ _ := rfl

/-- The workers work on the share. -/
structure ParallelDownload.WorksOn (paths : LibraryPaths) (state : ParallelDownload peerCount) :
    Prop where
  opens : state.session.OpensShare paths
  temps : ∀ worker temp, (state.workers worker).temp = some temp → temp.paths = paths

/-- The event reads or writes the disk. -/
def ParallelEvent.onDisk : ParallelEvent peerCount → Bool
  | .receive _ _ | .store _ _ => true
  | _ => false

/-- Every other step is the same over another disk. -/
theorem step_put (disk : Disk) (state : ParallelDownload peerCount)
    {event : ParallelEvent peerCount} (quiet : event.onDisk = false) :
    (parallelDownloadWorkers prims manifest outputDir available).step
        (workersLens.put disk state) event =
      ((parallelDownloadWorkers prims manifest outputDir available).step state event).map
        (workersLens.put disk) := by
  obtain ⟨queue, completed, session, workers⟩ := state
  cases event with
  | start worker failure =>
      change startWorker _ worker failure = (startWorker _ worker failure).map _
      unfold startWorker
      dsimp only [workersLens]
      cases workers worker with
      | starting =>
          by_cases empty : completed.isEmpty = true <;> cases failure <;> simp [empty] <;> rfl
      | _ => rfl
  | lock worker =>
      change lockQueue _ worker = (lockQueue _ worker).map _
      unfold lockQueue
      dsimp only [workersLens]
      cases workers worker with
      | ready =>
          have same : (ParallelDownload.mk queue completed (session.over disk) workers).QueueFree ↔
              (ParallelDownload.mk queue completed session workers).QueueFree := Iff.rfl
          by_cases free : (ParallelDownload.mk queue completed session workers).QueueFree <;>
            simp only [same, free, if_true, if_false] <;> rfl
      | _ => rfl
  | pop worker =>
      change popFront _ worker = (popFront _ worker).map _
      unfold popFront
      dsimp only [workersLens]
      cases workers worker with
      | popping attempts => cases attempts <;> cases queue <;> rfl
      | _ => rfl
  | examine worker =>
      change examineIndex manifest available _ worker =
        (examineIndex manifest available _ worker).map _
      unfold examineIndex
      dsimp only [workersLens]
      cases workers worker with
      | examining attempts index =>
          by_cases done : completed.contains index = true
          · simp only [done, if_true]
            rfl
          · by_cases has : (available worker).contains index = true
            · simp only [done, has, if_true]
              cases manifest.chunks.find? fun entry => entry.index == index <;> rfl
            · simp only [done, has]
              rfl
      | _ => rfl
  | request worker failure stamp =>
      change requestChunk _ worker failure stamp = (requestChunk _ worker failure stamp).map _
      unfold requestChunk
      dsimp only [workersLens, over_active]
      cases workers worker with
      | requesting entry => cases failure <;> cases session.active <;> rfl
      | _ => rfl
  | complete worker =>
      change completeIndex _ worker = (completeIndex _ worker).map _
      unfold completeIndex
      dsimp only [workersLens]
      cases workers worker <;> rfl
  | release worker =>
      change releaseIndex _ worker = (releaseIndex _ worker).map _
      unfold releaseIndex
      dsimp only [workersLens]
      cases workers worker with
      | failing index error =>
          have same : (ParallelDownload.mk queue completed (session.over disk) workers).QueueFree ↔
              (ParallelDownload.mk queue completed session workers).QueueFree := Iff.rfl
          by_cases free : (ParallelDownload.mk queue completed session workers).QueueFree <;>
            simp only [same, free, if_true, if_false] <;> rfl
      | _ => rfl
  | finish worker =>
      change finishWorker _ worker = (finishWorker _ worker).map _
      unfold finishWorker
      dsimp only [workersLens]
      cases workers worker <;> rfl
  | receive | store => cases quiet

/-- Storing a worker's move keeps the temporary paths in the share. -/
theorem ParallelDownload.WorksOn.move {state : ParallelDownload peerCount}
    (works : state.WorksOn paths) (queue : List UInt32) (completed : TreeSet UInt32)
    {session : LibrarySession} (opens : session.OpensShare paths) {worker : Fin peerCount}
    {position : DownloadWorker} (here : ∀ temp, position.temp = some temp → temp.paths = paths) :
    (ParallelDownload.move { queue, completed, session, workers := state.workers } worker
      position).WorksOn paths := by
  refine ⟨opens, fun other temp found => ?_⟩
  by_cases same : other = worker
  · subst same
    exact here temp (by simpa [ParallelDownload.move] using found)
  · exact works.temps other temp (by simpa [ParallelDownload.move, same] using found)

theorem worksOn_of_step {state next : ParallelDownload peerCount}
    {event : ParallelEvent peerCount} (works : state.WorksOn paths)
    (step : (parallelDownloadWorkers prims manifest outputDir available).step state event =
      some next) : next.WorksOn paths := by
  obtain ⟨opens, temps⟩ := works
  have works : state.WorksOn paths := ⟨opens, temps⟩
  cases parallelMove_of_step step with
  | start | startFails | lock | pop | giveUp | drop | take | unknown | rotate | requestFails
  | complete | release | finish => exact works.move _ _ opens (by simp [DownloadWorker.temp])
  | @request worker stamp entry library requesting active =>
      refine works.move _ _ opens fun temp found => ?_
      obtain rfl : _ = temp := by simpa [DownloadWorker.temp] using found
      exact opens library active
  | @receive worker reply entry temp frame rest session receiving arrived =>
      have here := temps worker temp (by simp [receiving, DownloadWorker.temp])
      refine works.move _ _ ((onShare_receiveChunkToFile here _).opens_ok opens arrived) ?_
      rintro other ⟨⟩
      exact here
  | @receiveFails worker reply entry temp error session receiving failed =>
      have here := temps worker temp (by simp [receiving, DownloadWorker.temp])
      exact works.move _ _ ((onShare_receiveChunkToFile here _).opens_error opens failed)
        (by simp [DownloadWorker.temp])
  | @store worker elapsed entry temp frame length session received stored =>
      have here := temps worker temp (by simp [received, DownloadWorker.temp])
      exact works.move _ _
        ((onShare_storeReceivedChunk outputDir entry here elapsed frame).opens_ok opens stored)
        (by simp [DownloadWorker.temp])
  | @storeFails worker elapsed entry temp frame error session received failed =>
      have here := temps worker temp (by simp [received, DownloadWorker.temp])
      exact works.move _ _
        ((onShare_storeReceivedChunk outputDir entry here elapsed frame).opens_error opens failed)
        (by simp [DownloadWorker.temp])

/-- A worker's receive over another disk with the same share directory does the same there. -/
theorem receiveReply_over {state next : ParallelDownload peerCount} {disk : Disk}
    {worker : Fin peerCount} {reply : Option Frame} (works : state.WorksOn paths)
    (same : disk paths = state.session.disk paths)
    (step : receiveReply prims state worker reply = some next) :
    receiveReply prims (workersLens.put disk state) worker reply =
      some (workersLens.put (Function.update disk paths (next.session.disk paths)) next) := by
  obtain ⟨queue, completed, session, workers⟩ := state
  unfold receiveReply at step ⊢
  dsimp only [workersLens] at step ⊢
  cases position : workers worker with
  | receiving entry temp =>
      have acts := @onShare_receiveChunkToFile prims paths temp
        (works.temps worker temp (by simp [position, DownloadWorker.temp])) reply.toList
      simp only [position] at step ⊢
      cases arrived : (receiveChunkToFile prims temp reply.toList).run session with
      | ok found after =>
          rw [arrived] at step
          obtain rfl := Option.some.inj step
          rw [acts.over_ok works.opens same arrived]
          rfl
      | error error after =>
          rw [arrived] at step
          obtain rfl := Option.some.inj step
          rw [acts.over_error works.opens same arrived]
          rfl
  | starting | ready | popping | examining | requesting | received | completing | failing
  | finishing | ended => simp [position] at step

/-- A worker's store over another disk with the same share directory does the same there. -/
theorem storeReply_over {state next : ParallelDownload peerCount} {disk : Disk}
    {worker : Fin peerCount} {elapsed : Bool} (works : state.WorksOn paths)
    (same : disk paths = state.session.disk paths)
    (step : storeReply prims outputDir state worker elapsed = some next) :
    storeReply prims outputDir (workersLens.put disk state) worker elapsed =
      some (workersLens.put (Function.update disk paths (next.session.disk paths)) next) := by
  obtain ⟨queue, completed, session, workers⟩ := state
  unfold storeReply at step ⊢
  dsimp only [workersLens] at step ⊢
  cases position : workers worker with
  | received entry temp frame =>
      have acts := @onShare_storeReceivedChunk prims paths outputDir entry temp
        (works.temps worker temp (by simp [position, DownloadWorker.temp])) elapsed frame
      simp only [position] at step ⊢
      cases stored : (storeReceivedChunk prims outputDir entry temp elapsed frame).run session with
      | ok found after =>
          rw [stored] at step
          obtain rfl := Option.some.inj step
          rw [acts.over_ok works.opens same stored]
          rfl
      | error error after =>
          rw [stored] at step
          obtain rfl := Option.some.inj step
          rw [acts.over_error works.opens same stored]
          rfl
  | starting | ready | popping | examining | requesting | receiving | completing | failing
  | finishing | ended => simp [position] at step

/-- The workers are confined to the directory of their share. -/
theorem confinedTo_parallelDownloadWorkers :
    (parallelDownloadWorkers prims manifest outputDir available).ConfinedTo workersLens paths
      (ParallelDownload.WorksOn paths) where
  keeps _ _ _ works step := worksOn_of_step works step
  blind _ _ works := ⟨works.opens, works.temps⟩
  others state event next works step other different := by
    obtain ⟨opens, temps⟩ := works
    cases parallelMove_of_step step with
    | start | startFails | lock | pop | giveUp | drop | take | unknown | rotate | requestFails
    | request | complete | release | finish => rfl
    | @receive worker reply entry temp frame rest session receiving arrived =>
        have here := temps worker temp (by simp [receiving, DownloadWorker.temp])
        exact (onShare_receiveChunkToFile here _).others_ok opens arrived different
    | @receiveFails worker reply entry temp error session receiving failed =>
        have here := temps worker temp (by simp [receiving, DownloadWorker.temp])
        exact (onShare_receiveChunkToFile here _).others_error opens failed different
    | @store worker elapsed entry temp frame length session received stored =>
        have here := temps worker temp (by simp [received, DownloadWorker.temp])
        exact (onShare_storeReceivedChunk outputDir entry here elapsed frame).others_ok opens stored
          different
    | @storeFails worker elapsed entry temp frame error session received failed =>
        have here := temps worker temp (by simp [received, DownloadWorker.temp])
        exact (onShare_storeReceivedChunk outputDir entry here elapsed frame).others_error opens
          failed different
  acts state event next disk works same step := by
    cases loud : event.onDisk with
    | false =>
        have again := @step_put prims manifest outputDir peerCount available disk state event loud
        rw [step] at again
        have untouched : next.session = state.session := by
          cases parallelMove_of_step step <;> first | rfl | cases loud
        have directory : workersLens.get next paths = disk paths :=
          (congrArg (fun session => session.disk paths) untouched).trans same.symm
        rw [directory, Function.update_eq_self]
        exact again
    | true =>
        cases event with
        | receive worker reply => exact receiveReply_over works same step
        | store worker elapsed => exact storeReply_over works same step
        | start | lock | pop | examine | request | complete | release | finish => cases loud

end Workers

end Etle
