import Etle.Ipc.LocalShares
import Etle.Transfer.ConcurrentDownloads
import Etle.Transfer.DownloadCalls
import Etle.Transfer.SeedAdd
import Etle.Transfer.ServeSession

/-!
# The library stays listable

One record that cannot be read hides every share of a library.  The program itself never writes
such a record: whatever peers send, however calls end and whatever is downloaded, added and deleted
meanwhile, every record that is there belongs to its share, and every descriptor is that of a
manifest.
-/

namespace Etle

open EStateM (Keeps)
open Std (TreeMap TreeSet)

/-- A record file that is there decodes, to content with the given property. -/
def Stored.Holds {α : Type} (proper : α → Prop) : Stored α → Prop
  | .missing => True
  | .undecodable => False
  | .value content => proper content

theorem Stored.Holds.exists {α : Type} {proper : α → Prop} {stored : Stored α}
    (holds : stored.Holds proper) (file : stored.isFile = true) :
    ∃ content, stored = .value content ∧ proper content := by
  cases stored with
  | missing => cases file
  | undecodable => exact holds.elim
  | value content => exact ⟨content, rfl, holds⟩

/-- Every record of a share directory that is there can be read. -/
structure ShareDir.Sound (prims : Primitives) (shareId : ShareId) (dir : ShareDir) : Prop where
  descriptor : dir.descriptor.Holds fun descriptor =>
    descriptor.shareId = shareId ∧ ∃ manifest, descriptor = descriptorFromManifest prims manifest
  secret : dir.secret.Holds fun secret => secret.shareId = shareId
  progress : dir.progress.Holds fun progress => progress.shareId = shareId
  state : dir.state.Holds fun state => state.shareId = shareId

/-- Every record of every library can be read. -/
def SoundLibrary (prims : Primitives) (disk : Disk) : Prop :=
  ∀ paths, (disk paths).Sound prims paths.shareId

/-- The libraries that a download works on are sound. -/
abbrev SoundSession (prims : Primitives) (session : LibrarySession) : Prop :=
  SoundLibrary prims session.disk

/-! ## Operations on the disk -/

section Operations

variable {prims : Primitives} {paths : LibraryPaths} {outputDir : Option PathBuf}

theorem ShareDir.sound_absent (shareId : ShareId) : ShareDir.absent.Sound prims shareId :=
  ⟨trivial, trivial, trivial, trivial⟩

/-- A change that leaves the directory of its share sound leaves all libraries sound. -/
theorem keeps_sound_changeShare {change : ShareDir → ShareDir}
    (sound : ∀ dir, dir.Sound prims paths.shareId → (change dir).Sound prims paths.shareId) :
    Keeps (SoundLibrary prims) (changeShare paths change) := by
  intro disk kept other
  change (Function.update disk paths (change (disk paths)) other).Sound prims other.shareId
  by_cases same : other = paths
  · subst same
    simpa using sound _ (kept other)
  · simpa [same] using kept other

/-- Chunk files are not records. -/
theorem keeps_sound_files {change : ShareDir → ShareDir}
    (records : ∀ dir, (change dir).descriptor = dir.descriptor ∧
      (change dir).secret = dir.secret ∧ (change dir).progress = dir.progress ∧
      (change dir).state = dir.state) :
    Keeps (SoundLibrary prims) (changeShare paths change) := by
  refine keeps_sound_changeShare fun dir sound => ?_
  obtain ⟨descriptor, secret, progress, state⟩ := records dir
  exact ⟨descriptor ▸ sound.descriptor, secret ▸ sound.secret, progress ▸ sound.progress,
    state ▸ sound.state⟩

/-- A record is only written into the directory of its own share. -/
theorem keeps_sound_ensured {owner : ShareId} {change : ShareDir → ShareDir}
    (sound : paths.shareId = owner → ∀ dir, dir.Sound prims paths.shareId →
      (change dir).Sound prims paths.shareId) :
    Keeps (SoundLibrary prims) (do
      EStateM.liftExcept id (ensureShareId paths.shareId owner)
      changeShare paths change) := by
  by_cases same : paths.shareId = owner
  · exact .bind (.liftExcept _ _) fun _ => keeps_sound_changeShare (sound same)
  · rw [ensureShareId, if_neg same]
    exact fun _ kept => kept

theorem keeps_sound_createShareDirs : Keeps (SoundLibrary prims) (createShareDirs paths) :=
  keeps_sound_files fun _ => ⟨rfl, rfl, rfl, rfl⟩

theorem keeps_sound_writeDescriptor (manifest : Manifest) :
    Keeps (SoundLibrary prims) (writeDescriptor paths (descriptorFromManifest prims manifest)) :=
  keeps_sound_ensured fun same _ sound =>
    ⟨⟨same.symm, manifest, rfl⟩, sound.secret, sound.progress, sound.state⟩

theorem keeps_sound_writeSecret (secret : EtleSecret) :
    Keeps (SoundLibrary prims) (writeSecret paths secret) :=
  keeps_sound_ensured fun same _ sound =>
    ⟨sound.descriptor, same.symm, sound.progress, sound.state⟩

theorem keeps_sound_writeProgress (progress : DownloadProgress) :
    Keeps (SoundLibrary prims) (writeProgress paths progress) :=
  keeps_sound_ensured fun same _ sound => ⟨sound.descriptor, sound.secret, same.symm, sound.state⟩

theorem keeps_sound_writeState (state : ShareState) :
    Keeps (SoundLibrary prims) (writeState paths state) :=
  keeps_sound_ensured fun same _ sound =>
    ⟨sound.descriptor, sound.secret, sound.progress, same.symm⟩

theorem keeps_sound_writeChunk (chunk : EncryptedChunk) :
    Keeps (SoundLibrary prims) (writeChunk paths chunk) :=
  keeps_sound_files fun _ => ⟨rfl, rfl, rfl, rfl⟩

theorem keeps_sound_writeFile (file : ChunkFile) (content : Bytes) :
    Keeps (SoundLibrary prims) (writeFile paths file content) :=
  keeps_sound_files fun _ => ⟨rfl, rfl, rfl, rfl⟩

theorem keeps_sound_removeFile (file : ChunkFile) :
    Keeps (SoundLibrary prims) (removeFile paths file) :=
  keeps_sound_files fun _ => ⟨rfl, rfl, rfl, rfl⟩

theorem keeps_sound_renameToChunk (temp : TempPath) (index : UInt32) :
    Keeps (SoundLibrary prims) (renameToChunk temp paths index) := by
  refine .bind (keeps_sound_removeFile _) fun _ => .get_bind fun disk => ?_
  split
  · exact .throw _
  · exact .bind (keeps_sound_removeFile _) fun _ => keeps_sound_writeFile _ _

theorem keeps_sound_writeRecords (mode : ShareMode) (progress : DownloadProgress) :
    Keeps (SoundLibrary prims) (writeRecords paths mode outputDir progress) :=
  .bind (keeps_sound_writeProgress _) fun _ => keeps_sound_writeState _

/-- The records of a new share are those of a manifest. -/
theorem keeps_sound_libraryInit (root : PathBuf) (manifest : Manifest) (fileKey : SymmetricKey)
    (mode : ShareMode) :
    Keeps (SoundLibrary prims)
      (libraryInit root (descriptorFromManifest prims manifest) fileKey mode outputDir) :=
  .bind keeps_sound_createShareDirs fun _ => .bind (keeps_sound_writeDescriptor _) fun _ =>
    .bind (keeps_sound_writeSecret _) fun _ => .bind (keeps_sound_writeProgress _) fun _ =>
      .bind (keeps_sound_writeState _) fun _ => .pure _

theorem keeps_sound_libraryDelete (root : PathBuf) (shareId : ShareId) :
    Keeps (SoundLibrary prims) (libraryDelete root shareId) := by
  refine .get_bind fun disk => ?_
  split
  · exact .bind (keeps_sound_changeShare fun _ _ => ShareDir.sound_absent _) fun _ => .pure _
  · exact .pure _

theorem keeps_sound_initializeDownloadLibraryState (root : Option PathBuf) (manifest : Manifest)
    (fileKey : SymmetricKey) (resume : Bool) :
    Keeps (SoundLibrary prims) (initializeDownloadLibraryState prims root
      (descriptorFromManifest prims manifest) fileKey outputDir resume) := by
  cases root with
  | none => exact .pure _
  | some root =>
      refine .get_bind fun disk => .bind (.liftExcept _ _) fun progress =>
        .bind (keeps_sound_libraryInit _ _ _ _) fun paths => ?_
      split
      · exact .pure _
      · exact .bind (keeps_sound_writeRecords _ _) fun _ => .pure _

/-! ## Operations of a download -/

theorem keeps_sound_onDisk {α : Type} {operation : OnDisk α}
    (keeps : Keeps (SoundLibrary prims) operation) :
    Keeps (SoundSession prims) (onDisk operation) :=
  keeps.zoom fun _ _ => rfl

/-- The handle of a download is not on disk. -/
theorem keeps_sound_setActive (active : Option ActiveDownloadLibraryState) :
    Keeps (SoundSession prims)
      (modify fun session => { session with active } : OnLibrary Unit) :=
  .modify fun _ kept => kept

theorem keeps_sound_removeFileIfExists (temp : TempPath) :
    Keeps (SoundSession prims) (onDisk (removeFileIfExists temp)) :=
  keeps_sound_onDisk (keeps_sound_removeFile _)

theorem keeps_sound_flushDownloadProgress (mode : ShareMode)
    (library : ActiveDownloadLibraryState) :
    Keeps (SoundSession prims) (flushDownloadProgress mode outputDir library) :=
  .bind (keeps_sound_onDisk (keeps_sound_writeRecords _ _)) fun _ => keeps_sound_setActive _

theorem keeps_sound_recordChunk (index : UInt32) (elapsed : Bool)
    (library : ActiveDownloadLibraryState) :
    Keeps (SoundSession prims) (recordChunk index outputDir elapsed library) := by
  refine .bind (keeps_sound_setActive _) fun _ => ?_
  split
  · exact keeps_sound_flushDownloadProgress _ _
  · exact .pure _

theorem keeps_sound_persistDownloadedChunkFile (index : UInt32) (temp : TempPath)
    (elapsed : Bool) :
    Keeps (SoundSession prims) (persistDownloadedChunkFile index temp outputDir elapsed) := by
  refine .get_bind fun session => ?_
  split
  · exact keeps_sound_removeFileIfExists temp
  · exact .bind (keeps_sound_onDisk keeps_sound_createShareDirs) fun _ =>
      .bind (keeps_sound_onDisk (keeps_sound_renameToChunk _ _)) fun _ =>
        keeps_sound_recordChunk _ _ _

theorem keeps_sound_persistDownloadedChunk (chunk : EncryptedChunk) (elapsed : Bool) :
    Keeps (SoundSession prims) (persistDownloadedChunk chunk outputDir elapsed) := by
  refine .get_bind fun session => ?_
  split
  · exact .pure _
  · exact .bind (keeps_sound_onDisk (keeps_sound_writeChunk _)) fun _ =>
      keeps_sound_recordChunk _ _ _

theorem keeps_sound_markDownloadLibraryComplete :
    Keeps (SoundSession prims) (markDownloadLibraryComplete outputDir) := by
  refine .get_bind fun session => ?_
  split
  · exact .pure _
  · have stored (state : ShareState) (paths : LibraryPaths) :
        Keeps (SoundSession prims) (onDisk (writeState paths state)) :=
      keeps_sound_onDisk (keeps_sound_writeState _)
    split
    · exact .bind (keeps_sound_flushDownloadProgress _ _) fun _ => stored _ _
    · exact stored _ _

theorem keeps_sound_receiveChunkToFile (temp : TempPath) (frames : List Frame) :
    Keeps (SoundSession prims) (receiveChunkToFile prims temp frames) := by
  have written (data : Bytes) : Keeps (SoundSession prims)
      (onDisk (writeFile temp.paths (.part temp.index temp.suffix) data)) :=
    keeps_sound_onDisk (keeps_sound_writeFile _ _)
  cases frames with
  | nil => exact .throw _
  | cons head rest =>
      cases head with
      | encoded message => exact .pure _
      | raw index data => exact .bind (written _) fun _ => .pure _
      | cut index data => exact .bind (written _) fun _ => .throw _
      | invalid error => exact .throw _

theorem keeps_sound_persistReply (inFlight : TreeMap UInt32 ChunkMeta) (elapsed : Bool)
    (frame : ReceivedChunkFrame) (temp : Option TempPath) :
    Keeps (SoundSession prims) (persistReply prims outputDir inFlight elapsed frame temp) :=
  keeps_persistReply (fun path _ => keeps_sound_removeFileIfExists path)
    (fun path index _ => keeps_sound_persistDownloadedChunkFile index path elapsed)
    (fun chunk => keeps_sound_persistDownloadedChunk chunk elapsed) inFlight frame

theorem keeps_sound_storeReceivedChunk (entry : ChunkMeta) (temp : TempPath) (elapsed : Bool)
    (frame : ReceivedChunkFrame) :
    Keeps (SoundSession prims) (storeReceivedChunk prims outputDir entry temp elapsed frame) := by
  have removed := @keeps_sound_removeFileIfExists prims temp
  cases frame with
  | rawChunkFile index dataLen blake3Hash =>
      rw [storeReceivedChunk]
      split
      · exact .bind removed fun _ => .throw _
      · split
        · exact .bind removed fun _ => .throw _
        · exact .bind (keeps_sound_persistDownloadedChunkFile _ _ _) fun _ => .pure _
  | message message =>
      cases message with
      | chunk index data =>
          rw [storeReceivedChunk]
          refine .bind removed fun _ => ?_
          split
          · exact .throw _
          · split
            · exact .throw _
            · exact .bind (keeps_sound_persistDownloadedChunk _ _) fun _ => .pure _
      | hello | capabilities | keyExchange | authProof | requestManifest | requestShare | manifest
      | wrappedFileKey | «have» | requestChunk | error =>
          exact .bind removed fun _ => .throw _

theorem keeps_sound_storeResumed (manifest : Manifest) (library : ActiveDownloadLibraryState) :
    Keeps (SoundSession prims) (storeResumed prims manifest outputDir library) :=
  .get_bind fun _ => .bind (.liftExcept _ _) fun _ => .bind (keeps_sound_setActive _) fun _ =>
    .bind (keeps_sound_onDisk (keeps_sound_writeRecords _ _)) fun _ => .pure _

theorem keeps_sound_loadResumableChunkIndexes (manifest : Manifest) :
    Keeps (SoundSession prims) (loadResumableChunkIndexes prims manifest outputDir) := by
  refine .get_bind fun session => ?_
  split
  · exact .pure _
  · exact .bind (keeps_sound_storeResumed _ _) fun _ => .pure _

theorem keeps_sound_loadResumableChunks (manifest : Manifest) :
    Keeps (SoundSession prims) (loadResumableChunks prims manifest outputDir) := by
  refine .get_bind fun session => ?_
  split
  · exact .pure _
  · exact .bind (keeps_sound_storeResumed _ _) fun _ => .pure _

theorem keeps_sound_prepareDownload (options : DownloadFileOptions)
    (peer : ConnectedDownloadPeer) :
    Keeps (SoundSession prims) (prepareDownload prims options outputDir peer) := by
  refine .bind (keeps_sound_onDisk (keeps_sound_initializeDownloadLibraryState _ _ _ _))
    fun active => .bind (keeps_sound_setActive _) fun _ => ?_
  split
  · exact .bind (keeps_sound_loadResumableChunkIndexes _) fun _ => .pure _
  · exact .bind (keeps_sound_loadResumableChunks _) fun _ => .pure _

theorem keeps_sound_prepareParallel (outputPath : PathBuf) (options : DownloadFileOptions)
    (manifest : Manifest) (fileKey : SymmetricKey) :
    Keeps (SoundSession prims) (prepareParallel prims outputPath options manifest fileKey) := by
  refine .bind (keeps_sound_onDisk (keeps_sound_initializeDownloadLibraryState _ _ _ _))
    fun active => .bind (keeps_sound_setActive _) fun _ => ?_
  split
  · exact .throw _
  · exact keeps_sound_loadResumableChunkIndexes _

end Operations

/-! ## The loops -/

section Loops

variable {prims : Primitives} {outputDir : Option PathBuf}

/-- Every step of the chunk loop leaves the libraries sound. -/
theorem sound_of_windowStep {peerAvailable : TreeSet UInt32} {requestWindow : Nat}
    (state : WindowedDownload) (event : WindowEvent) (next : WindowedDownload)
    (sound : SoundSession prims state.session)
    (step : (downloadMissingChunksWindowed prims outputDir peerAvailable requestWindow).step state
      event = some next) : SoundSession prims next.session := by
  cases windowMove_of_step step with
  | skip | send | sendFails | receiveMessage | receiveMessageFails | complete | finish =>
      exact sound
  | receive _ _ _ _ arrived => exact (keeps_sound_receiveChunkToFile _ _).of_ok sound arrived
  | receiveFails _ _ _ _ failed =>
      exact (keeps_sound_receiveChunkToFile _ _).of_error sound failed
  | persist _ persisted =>
      exact (keeps_sound_persistReply _ _ _ _).of_ok sound persisted
  | persistFails _ failed =>
      exact (keeps_sound_persistReply _ _ _ _).of_error sound failed

/-- Every step of a parallel worker leaves the libraries sound. -/
theorem sound_of_parallelStep {manifest : Manifest} {peerCount : Nat}
    {available : Fin peerCount → TreeSet UInt32} (state : ParallelDownload peerCount)
    (event : ParallelEvent peerCount) (next : ParallelDownload peerCount)
    (sound : SoundSession prims state.session)
    (step : (parallelDownloadWorkers prims manifest outputDir available).step state event =
      some next) : SoundSession prims next.session := by
  cases parallelMove_of_step step with
  | receive _ arrived => exact (keeps_sound_receiveChunkToFile _ _).of_ok sound arrived
  | receiveFails _ failed =>
      exact (keeps_sound_receiveChunkToFile _ _).of_error sound failed
  | store _ stored => exact (keeps_sound_storeReceivedChunk _ _ _ _).of_ok sound stored
  | storeFails _ failed =>
      exact (keeps_sound_storeReceivedChunk _ _ _ _).of_error sound failed
  | _ => exact sound

/-! ## The calls -/

variable {outputPath : PathBuf} {options : DownloadFileOptions}

theorem EndsIn.sound {outputs : PathBuf → Option Bytes} {result : DownloadResult}
    (ends : EndsIn outputPath outputs (SoundSession prims) result) :
    SoundLibrary prims result.final.disk := by
  obtain ⟨session, sound, same⟩ := ends.session
  rwa [same]

theorem sound_of_downloadFromPeer {attempt : Attempt} {peer : ConnectedDownloadPeer}
    {connection : Connection} {world : DownloadWorld} (sound : SoundLibrary prims world.disk)
    {result : DownloadResult}
    (finished : downloadFromPeer prims outputPath options attempt peer connection world =
      some result) :
    SoundLibrary prims result.final.disk :=
  EndsIn.sound (endsIn_of_downloadFromPeer (keeps_sound_prepareDownload options peer)
    (fun _ _ _ events _ opened ran =>
      Machine.invariant_of_reaches sound_of_windowStep opened ⟨events, ran⟩)
    keeps_sound_markDownloadLibraryComplete sound finished)

/-- A call leaves the libraries sound, whatever its outcome. -/
theorem sound_rule :
    DownloadRule prims outputPath options (fun _ => True) fun before result =>
      SoundLibrary prims before.disk → SoundLibrary prims result.final.disk where
  failed _ _ := id
  retried _ _ _ _ first second sound := second (first sound)
  peer _ _ _ _ _ _ _ ran sound := sound_of_downloadFromPeer sound ran
  unprepared _ _ _ _ _ _ failed sound :=
    (keeps_sound_prepareParallel _ _ _ _).of_error sound failed
  workers manifest fileKey world completed session peerCount available events state _ prepared ran
      _ := by
    have kept (sound : SoundLibrary prims world.disk) : SoundSession prims state.session :=
      Machine.invariant_of_reaches sound_of_parallelStep
        ((keeps_sound_prepareParallel _ _ _ _).of_ok sound prepared) ⟨_, ran⟩
    exact ⟨fun _ => kept, fun _ _ _ finished sound =>
      EndsIn.sound (endsIn_of_finishFromLibrary keeps_sound_markDownloadLibraryComplete
        (kept sound) finished)⟩

theorem keeps_sound_moveChunks (paths : LibraryPaths) (staged : UInt32 → Option Bytes)
    (entries : List ChunkMeta) : Keeps (SoundLibrary prims) (moveChunks paths staged entries) := by
  have zoomed {operation : OnDisk Unit} (keeps : Keeps (SoundLibrary prims) operation) :
      Keeps (SoundLibrary prims)
        (EStateM.zoom id (fun disk _ => disk) NetworkError.file operation) :=
    keeps.zoom fun _ _ => rfl
  induction entries generalizing staged with
  | nil => exact .pure _
  | cons entry rest ih =>
      refine .bind (zoomed (keeps_sound_removeFile _)) fun _ => ?_
      split
      · exact .throw _
      · exact .bind (zoomed (keeps_sound_writeChunk _)) fun _ => ih _

/-- Adding a file leaves the libraries sound. -/
theorem sound_of_addStreaming {input : SeedInput} {fileKey : SymmetricKey} {chunkSize : Nat}
    {libraryRoot : PathBuf} {schedule : SeedSchedule} {disk : Disk}
    {result : EStateM.Result NetworkError Disk EtleDescriptor} (sound : SoundLibrary prims disk)
    (added : addStreaming prims input fileKey chunkSize libraryRoot schedule disk = some result) :
    SoundLibrary prims result.final := by
  unfold addStreaming at added
  split at added
  · obtain rfl := Option.some.inj added
    exact sound
  · dsimp only at added
    split at added
    · obtain rfl := Option.some.inj added
      exact sound
    · obtain rfl := Option.some.inj added
      have stored (chunkMetas : List ChunkMeta) (staged : UInt32 → Option Bytes) :
          Keeps (SoundLibrary prims)
            (storeSeeded prims input fileKey chunkSize libraryRoot chunkMetas staged) :=
        .bind ((keeps_sound_libraryInit _ _ _ _).zoom fun _ _ => rfl) fun _ =>
          .bind (keeps_sound_moveChunks _ _ _) fun _ => .pure _
      exact stored _ _ disk sound
    · cases added

end Loops

/-! ## Runs -/

/-- What is done to the libraries: a download, adding a file, deleting a share. -/
inductive LibraryAction where
  | download (outputPath : PathBuf) (options : DownloadFileOptions) (call : DownloadCall)
  | add (input : SeedInput) (fileKey : SymmetricKey) (chunkSize : Nat) (libraryRoot : PathBuf)
      (schedule : SeedSchedule)
  | delete (root : PathBuf) (shareId : ShareId)

/-- The files after an action, which may fail. -/
def LibraryAction.run (prims : Primitives) (world : DownloadWorld) :
    LibraryAction → Option DownloadWorld
  | .download outputPath options call =>
      (call.run prims outputPath options world).map EStateM.Result.final
  | .add input fileKey chunkSize libraryRoot schedule =>
      (addStreaming prims input fileKey chunkSize libraryRoot schedule world.disk).map fun added =>
        { world with disk := added.final }
  | .delete root shareId =>
      some { world with disk := ((libraryDelete root shareId).run world.disk).final }

/-- The files, and the chunk loops of the downloads that run meanwhile, of one share or of several
ones. -/
structure BusyLibrary {ι : Type} (jobs : ι → DownloadLoop) where
  world : DownloadWorld
  loops : ∀ i, (jobs i).State

/-- A chunk loop takes a step, or an action is taken beside them. -/
def busyLibrary (prims : Primitives) {ι : Type} [DecidableEq ι] (jobs : ι → DownloadLoop) :
    Machine (BusyLibrary jobs) ((Σ i, (jobs i).Event) ⊕ LibraryAction) where
  step library
    | .inl event =>
        ((interleaved (fun i => (jobs i).machine prims) fun i => (jobs i).lens).step
          { store := library.world.disk, states := library.loops } event).map fun next =>
            { world := { library.world with disk := next.store }, loops := next.states }
    | .inr action => (action.run prims library.world).map fun world => { library with world }

section Runs

variable {prims : Primitives}

/-- Every action leaves the libraries sound. -/
theorem LibraryAction.sound {world next : DownloadWorld} {action : LibraryAction}
    (sound : SoundLibrary prims world.disk) (ran : action.run prims world = some next) :
    SoundLibrary prims next.disk := by
  cases action with
  | download outputPath options call =>
      obtain ⟨result, ended, rfl⟩ := Option.map_eq_some_iff.mp ran
      exact sound_rule.call (fun _ _ _ _ _ _ => trivial) ended sound
  | add input fileKey chunkSize libraryRoot schedule =>
      obtain ⟨result, added, rfl⟩ := Option.map_eq_some_iff.mp ran
      exact sound_of_addStreaming sound added
  | delete root shareId =>
      obtain rfl := Option.some.inj ran
      exact keeps_sound_libraryDelete root shareId world.disk sound

/-- Every step of a chunk loop leaves the libraries sound. -/
theorem DownloadLoop.sound {loop : DownloadLoop} {state next : loop.State} {event : loop.Event}
    (sound : SoundLibrary prims (loop.lens.get state))
    (step : (loop.machine prims).step state event = some next) :
    SoundLibrary prims (loop.lens.get next) := by
  cases loop with
  | windowed => exact sound_of_windowStep state event next sound step
  | parallel => exact sound_of_parallelStep state event next sound step

theorem sound_of_busyStep {ι : Type} [DecidableEq ι] {jobs : ι → DownloadLoop}
    (library : BusyLibrary jobs) (event : (Σ i, (jobs i).Event) ⊕ LibraryAction)
    (next : BusyLibrary jobs) (sound : SoundLibrary prims library.world.disk)
    (step : (busyLibrary prims jobs).step library event = some next) :
    SoundLibrary prims next.world.disk := by
  cases event with
  | inl event =>
      obtain ⟨shared, taken, rfl⟩ := Option.map_eq_some_iff.mp step
      obtain ⟨moved, moves, rfl⟩ := Option.map_eq_some_iff.mp taken
      refine DownloadLoop.sound ?_ moves
      rwa [Lens.get_put]
  | inr action =>
      obtain ⟨world, ran, rfl⟩ := Option.map_eq_some_iff.mp step
      exact action.sound sound ran

end Runs

section Listing

variable {prims : Primitives} {disk : Disk} {paths : LibraryPaths}

theorem SoundLibrary.readDescriptor (sound : SoundLibrary prims disk)
    (file : (disk paths).descriptor.isFile = true) :
    ∃ manifest, (disk paths).descriptor = .value (descriptorFromManifest prims manifest) ∧
      (descriptorFromManifest prims manifest).shareId = paths.shareId ∧
      Etle.readDescriptor prims disk paths = .ok (descriptorFromManifest prims manifest) := by
  obtain ⟨descriptor, stored, owned, manifest, rfl⟩ := (sound paths).descriptor.exists file
  exact ⟨manifest, stored, owned,
    readDescriptor_of_value stored owned (verifyShareId_descriptorFromManifest prims manifest)⟩

theorem SoundLibrary.readable (sound : SoundLibrary prims disk) :
    ReadableShare prims disk paths := by
  intro file
  obtain ⟨manifest, -, -, read⟩ := sound.readDescriptor file
  refine ⟨⟨_, read⟩, fun progress_file => ?_, fun state_file => ?_⟩
  · obtain ⟨progress, stored, owned⟩ := (sound paths).progress.exists progress_file
    exact ⟨progress, readProgress_of_value stored owned⟩
  · obtain ⟨state, stored, owned⟩ := (sound paths).state.exists state_file
    exact ⟨state, readState_of_value stored owned⟩

end Listing

/-- No record hides a share: every library is listed, with every share that has a descriptor, and
every share that has a file key too can be served. -/
structure NothingHidden (prims : Primitives) (disk : Disk) : Prop where
  listed : ∀ root directory, ∃ shares, libraryList prims disk root directory = .ok shares ∧
    ∀ entries, directory = some entries → ∀ entry ∈ entries, ∀ shareId,
      entry.shareId = some shareId → (disk { root, shareId }).descriptor.isFile = true →
        ∃ share ∈ shares, share.descriptor.shareId = shareId
  served : ∀ paths, (disk paths).descriptor.isFile = true → (disk paths).secret.isFile = true →
    ∃ share, loadShare prims disk paths = .ok share

theorem SoundLibrary.nothingHidden {prims : Primitives} {disk : Disk}
    (sound : SoundLibrary prims disk) : NothingHidden prims disk where
  listed root directory := by
    cases directory with
    | none => exact ⟨[], rfl, by rintro entries ⟨⟩⟩
    | some entries =>
        obtain ⟨shares, listed⟩ := libraryList_eq_ok_iff.mpr fun entry (_ : entry ∈ entries) shareId
          _ => @SoundLibrary.readable prims disk { root, shareId } sound
        refine ⟨shares, listed, ?_⟩
        rintro _ ⟨⟩ entry member shareId named file
        obtain ⟨share, read⟩ := summarizeShare_eq_ok_iff.mpr (sound.readable file)
        exact ⟨share, (mem_libraryList listed).mpr ⟨entry, member, shareId, named, file, read⟩,
          shareId_of_summarizeShare read⟩
  served paths described keyed := by
    obtain ⟨manifest, stored, owned, -⟩ := sound.readDescriptor described
    obtain ⟨⟨_, fileKey⟩, kept, rfl⟩ := (sound paths).secret.exists keyed
    exact ⟨_, loadShare_of_values stored kept owned⟩

/-- Over sound libraries no record hides a share, whatever is downloaded, added and deleted while
chunk loops run, of the same share or of different ones, whatever peers send, however the steps are
scheduled and with whatever outcome. -/
theorem library_stays_listable (prims : Primitives) {ι : Type} [DecidableEq ι]
    (jobs : ι → DownloadLoop) (start final : BusyLibrary jobs)
    (events : List ((Σ i, (jobs i).Event) ⊕ LibraryAction))
    (sound : SoundLibrary prims start.world.disk)
    (ran : (busyLibrary prims jobs).run start events = some final) :
    NothingHidden prims final.world.disk :=
  (Machine.invariant_of_reaches sound_of_busyStep sound ⟨events, ran⟩).nothingHidden

/-- Two downloads into an empty library, each with its chunk requested. -/
def requestedJobs : BusyLibrary fun _ : Bool => DownloadLoop.windowed none {0} 1 where
  world := { disk := fun _ => .absent, outputs := fun _ => none }
  loops := requestedJob

/-- The share of the first one is deleted before it stores its chunk. -/
theorem library_stays_listable_beside_deletion :
    ∃ final, (busyLibrary transparentPrimitives fun _ : Bool => .windowed none {0} 1).run
        requestedJobs
        [.inl ⟨false, WindowEvent.receive (some (.raw 0 (oneByteChunk 0))) 0⟩,
          .inr (.delete ["library"] (jobPaths false).shareId),
          .inl ⟨true, WindowEvent.receive (some (.raw 0 (oneByteChunk 0))) 0⟩,
          .inl ⟨true, WindowEvent.persist true⟩, .inl ⟨false, WindowEvent.persist true⟩] =
        some final ∧
      NothingHidden transparentPrimitives final.world.disk := by
  obtain ⟨final, ran⟩ := Option.isSome_iff_exists.mp (show ((busyLibrary transparentPrimitives
      fun _ : Bool => .windowed none {0} 1).run requestedJobs
      [.inl ⟨false, WindowEvent.receive (some (.raw 0 (oneByteChunk 0))) 0⟩,
        .inr (.delete ["library"] (jobPaths false).shareId),
        .inl ⟨true, WindowEvent.receive (some (.raw 0 (oneByteChunk 0))) 0⟩,
        .inl ⟨true, WindowEvent.persist true⟩, .inl ⟨false, WindowEvent.persist true⟩]).isSome =
        true by decide +kernel)
  exact ⟨final, ran, library_stays_listable transparentPrimitives _ requestedJobs final _
    (fun _ => ShareDir.sound_absent _) ran⟩

end Etle
