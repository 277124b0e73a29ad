import Etle.Ipc.LocalShares
import Etle.Transfer.DownloadRecords
import Etle.Transfer.VerifiedRuns

/-!
# Deleting a share that is being downloaded

A running download keeps the handle of its share in memory and knows nothing of a deletion.  Most of
its accesses to the share create the directories they need, so a share that is deleted between two
accesses comes back with the next one, without the records that would list it.  Every access of the
two download loops and of the completion is one of those listed here; an interleaving is a list of
them with the deletion between any two.
-/

namespace Etle

open Std (TreeMap TreeSet)

/-! ## The accesses of a running download -/

/-- The temporary path of the handle's share for a chunk and a time. -/
def ActiveDownloadLibraryState.temp (library : ActiveDownloadLibraryState) (index : UInt32)
    (stagingTimestamp : Nat) : TempPath where
  paths := library.paths
  index := index
  suffix := stagingTimestamp

/-- One access of a running download to its share or to the handle on it. -/
inductive ShareAccess where
  /-- Receive a frame, a raw chunk into its temporary file. -/
  | receive (index : UInt32) (stagingTimestamp : Nat) (reply : Option Frame)
  /-- Remove a temporary file. -/
  | discard (index : UInt32) (stagingTimestamp : Nat)
  | createDirs
  /-- Rename a temporary file into the final place of a chunk. -/
  | rename (index : UInt32) (stagingTimestamp : Nat) (chunkIndex : UInt32)
  | writeChunk (chunk : EncryptedChunk)
  | mark (index : UInt32)
  | writeProgress
  | writeState (mode : ShareMode) (outputDir : Option PathBuf)
  /-- Count no mark as waiting after a flush. -/
  | settle

/-- What an access does, given the handle it finds. -/
def ShareAccess.perform (prims : Primitives) (library : ActiveDownloadLibraryState) :
    ShareAccess → OnLibrary Unit
  | .receive index stagingTimestamp reply => do
      let _ ← receiveChunkToFile prims (library.temp index stagingTimestamp) reply.toList
      return
  | .discard index stagingTimestamp =>
      onDisk (removeFileIfExists (library.temp index stagingTimestamp))
  | .createDirs => onDisk (createShareDirs library.paths)
  | .rename index stagingTimestamp chunkIndex =>
      onDisk (renameToChunk (library.temp index stagingTimestamp) library.paths chunkIndex)
  | .writeChunk chunk => onDisk (Etle.writeChunk library.paths chunk)
  | .mark index => modify fun session => { session with active := some (library.marked index) }
  | .writeProgress => onDisk (Etle.writeProgress library.paths library.progress)
  | .writeState mode outputDir =>
      onDisk (Etle.writeState library.paths
        (ShareState.fromProgress mode outputDir library.progress))
  | .settle =>
      modify fun session => { session with active := some { library with dirtyChunks := 0 } }

/-- The accesses of a running download in any order; a failed one leaves what it has reached. -/
def runningDownload (prims : Primitives) : Machine LibrarySession ShareAccess where
  step session access :=
    session.active.map fun library => ((access.perform prims library).run session).final

/-- The download has a handle on a share, with progress of that share. -/
def LibrarySession.Holds (session : LibrarySession) (paths : LibraryPaths) : Prop :=
  ∃ library, session.active = some library ∧ library.paths = paths ∧ library.Owned

section

variable {prims : Primitives} {paths : LibraryPaths}

theorem final_onDisk {α : Type} (operation : OnDisk α) (session : LibrarySession) :
    ((onDisk operation).run session).final =
      { session with disk := (operation.run session.disk).final } := by
  cases outcome : operation.run session.disk with
  | ok value disk => rw [run_onDisk_ok outcome]; rfl
  | error failure disk =>
      rw [show (onDisk operation).run session = .error (.file failure) { session with disk } from
        EStateM.run_zoom_eq_error.mpr ⟨failure, disk, outcome, rfl, rfl⟩]
      rfl

/-- Receiving a reply leaves what receiving its chunk leaves. -/
theorem final_receive (library : ActiveDownloadLibraryState) (index : UInt32)
    (stagingTimestamp : Nat) (reply : Option Frame) (session : LibrarySession) :
    (((ShareAccess.receive index stagingTimestamp reply).perform prims library).run
      session).final =
      ((receiveChunkToFile prims (library.temp index stagingTimestamp) reply.toList).run
        session).final :=
  EStateM.final_bind_pure _ _ _

/-- The session after an access. -/
theorem runningDownload_step {session : LibrarySession} {library : ActiveDownloadLibraryState}
    (active : session.active = some library) (access : ShareAccess) :
    (runningDownload prims).step session access =
      some ((access.perform prims library).run session).final := by
  simp [runningDownload, active]

/-- An access keeps the handle, up to its progress and the count of its marks. -/
theorem holds_of_access {session next : LibrarySession} {access : ShareAccess}
    (holds : session.Holds paths)
    (step : (runningDownload prims).step session access = some next) : next.Holds paths := by
  obtain ⟨library, active, rfl, owned⟩ := holds
  rw [runningDownload_step active] at step
  obtain rfl := Option.some.inj step
  have same (operation : OnDisk Unit) :
      ((onDisk operation).run session).final.Holds library.paths := by
    rw [final_onDisk]
    exact ⟨library, active, rfl, owned⟩
  cases access with
  | receive index stagingTimestamp reply =>
      rw [final_receive]
      match reply with
      | none | some (.encoded _) | some (.invalid _) => exact ⟨library, active, rfl, owned⟩
      | some (.raw _ _) | some (.cut _ _) => exact ⟨library, active, rfl, owned⟩
  | discard | createDirs | rename | writeChunk | writeProgress | writeState => exact same _
  | mark index => exact ⟨library.marked index, rfl, rfl, owned.marked index⟩
  | settle => exact ⟨{ library with dirtyChunks := 0 }, rfl, rfl, owned⟩

/-- The session is reached by accesses, with the handle still there. -/
def Accessed (prims : Primitives) (paths : LibraryPaths) (start session : LibrarySession) : Prop :=
  (runningDownload prims).Reaches start session ∧ session.Holds paths

variable {start : LibrarySession}

theorem Accessed.step {session : LibrarySession} {library : ActiveDownloadLibraryState}
    (accessed : Accessed prims paths start session) (active : session.active = some library)
    (access : ShareAccess) :
    Accessed prims paths start ((access.perform prims library).run session).final := by
  have taken := @runningDownload_step prims _ _ active access
  exact ⟨accessed.1.trans (.of_step taken), holds_of_access accessed.2 taken⟩

/-- The handle of a session that is reached by accesses. -/
theorem Accessed.handle {session : LibrarySession} {library : ActiveDownloadLibraryState}
    (accessed : Accessed prims paths start session) (active : session.active = some library) :
    library.paths = paths ∧ library.Owned := by
  obtain ⟨-, other, other_active, here, owned⟩ := accessed
  obtain rfl : other = library := Option.some.inj (other_active.symm.trans active)
  exact ⟨here, owned⟩

theorem eq_temp {library : ActiveDownloadLibraryState} {temp : TempPath}
    (here : temp.paths = library.paths) : temp = library.temp temp.index temp.suffix := by
  rw [ActiveDownloadLibraryState.temp, ← here]

theorem keeps_accessed_receiveChunkToFile {temp : TempPath} (here : temp.paths = paths)
    (reply : Option Frame) :
    EStateM.Keeps (Accessed prims paths start) (receiveChunkToFile prims temp reply.toList) := by
  intro session accessed
  obtain ⟨library, active, same, -⟩ := accessed.2
  have next := accessed.step active (.receive temp.index temp.suffix reply)
  rwa [final_receive, ← eq_temp (here.trans same.symm)] at next

theorem keeps_accessed_removeFileIfExists {temp : TempPath} (here : temp.paths = paths) :
    EStateM.Keeps (Accessed prims paths start) (onDisk (removeFileIfExists temp)) := by
  intro session accessed
  obtain ⟨library, active, same, -⟩ := accessed.2
  have next := accessed.step active (.discard temp.index temp.suffix)
  rwa [ShareAccess.perform, ← eq_temp (here.trans same.symm)] at next

/-- A flush stores the progress, then the state, and then counts no mark as waiting. -/
theorem Accessed.flush {session : LibrarySession} {library : ActiveDownloadLibraryState}
    (accessed : Accessed prims paths start session) (active : session.active = some library)
    (mode : ShareMode) (outputDir : Option PathBuf) :
    Accessed prims paths start
      ((flushDownloadProgress mode outputDir library).run session).final := by
  have owned := (accessed.handle active).2
  have same : library.paths.shareId = library.progress.shareId := owned.symm
  have progress := accessed.step active .writeProgress
  have state := progress.step (by rw [ShareAccess.perform, final_onDisk]; exact active)
    (.writeState mode outputDir)
  have settled := state.step (by simp only [ShareAccess.perform, final_onDisk]; exact active)
    .settle
  rw [run_flushDownloadProgress owned]
  simpa [ShareAccess.perform, final_onDisk, writeProgress, writeState, same, flushedDir]
    using settled

theorem Accessed.record {session : LibrarySession} {library : ActiveDownloadLibraryState}
    (accessed : Accessed prims paths start session) (active : session.active = some library)
    (index : UInt32) (outputDir : Option PathBuf) (elapsed : Bool) :
    Accessed prims paths start
      ((recordChunk index outputDir elapsed library).run session).final := by
  have marked := accessed.step active (.mark index)
  have flushed := marked.flush rfl .downloading outputDir
  simp only [ShareAccess.perform] at marked flushed
  by_cases due : shouldFlushDownloadProgress (library.marked index) elapsed = true
  · simpa [recordChunk, due, -bind_pure_comp] using flushed
  · simpa [recordChunk, due, -bind_pure_comp] using marked

theorem keeps_accessed_persistDownloadedChunkFile {temp : TempPath} (here : temp.paths = paths)
    (index : UInt32) (outputDir : Option PathBuf) (elapsed : Bool) :
    EStateM.Keeps (Accessed prims paths start)
      (persistDownloadedChunkFile index temp outputDir elapsed) := by
  intro session accessed
  obtain ⟨library, active, same, -⟩ := accessed.2
  have path := eq_temp (here.trans same.symm)
  have created := accessed.step active .createDirs
  rw [ShareAccess.perform, run_createShareDirs, EStateM.Result.final_ok] at created
  have renamed := created.step active (.rename temp.index temp.suffix index)
  rw [ShareAccess.perform, ← path] at renamed
  simp only [persistDownloadedChunkFile, EStateM.run_bind, EStateM.run_get, active,
    run_createShareDirs]
  cases outcome : (onDisk (renameToChunk temp library.paths index)).run
      (session.withFiles library.paths (session.disk library.paths).chunks) with
  | error failure left => simpa [outcome] using renamed
  | ok value next =>
      have still : next.active = some library := by
        have frame := final_onDisk (renameToChunk temp library.paths index)
          (session.withFiles library.paths (session.disk library.paths).chunks)
        rw [outcome, EStateM.Result.final_ok] at frame
        rw [frame]
        exact active
      rw [outcome, EStateM.Result.final_ok] at renamed
      exact renamed.record still index outputDir elapsed

theorem keeps_accessed_persistDownloadedChunk (chunk : EncryptedChunk)
    (outputDir : Option PathBuf) (elapsed : Bool) :
    EStateM.Keeps (Accessed prims paths start)
      (persistDownloadedChunk chunk outputDir elapsed) := by
  intro session accessed
  obtain ⟨library, active, -⟩ := accessed.2
  have written := accessed.step active (.writeChunk chunk)
  have recorded := written.record (by rw [ShareAccess.perform, final_onDisk]; exact active)
    chunk.index outputDir elapsed
  have stored : (onDisk (writeChunk library.paths chunk)).run session = _ := run_onDisk_ok rfl
  simpa [persistDownloadedChunk, active, stored, ShareAccess.perform, -bind_pure_comp]
    using recorded

/-- Completing the share flushes what is waiting and stores the state. -/
theorem keeps_accessed_markDownloadLibraryComplete (outputDir : Option PathBuf) :
    EStateM.Keeps (Accessed prims paths start) (markDownloadLibraryComplete outputDir) := by
  intro session accessed
  obtain ⟨library, active, -, owned⟩ := accessed.2
  by_cases dirty : 0 < library.dirtyChunks
  · have flushed := accessed.flush active .downloading outputDir
    rw [run_flushDownloadProgress owned, EStateM.Result.final_ok] at flushed
    have completed := flushed.step rfl (.writeState .completed outputDir)
    simpa [markDownloadLibraryComplete, active, dirty, run_flushDownloadProgress owned,
      ShareAccess.perform, -bind_pure_comp] using completed
  · have completed := accessed.step active (.writeState .completed outputDir)
    simpa [markDownloadLibraryComplete, active, dirty, ShareAccess.perform, -bind_pure_comp]
      using completed

/-- Verifying and storing a reply of the windowed loop takes accesses only. -/
theorem keeps_accessed_persistReply (outputDir : Option PathBuf)
    (inFlight : TreeMap UInt32 ChunkMeta) (elapsed : Bool) (frame : ReceivedChunkFrame)
    {temp : Option TempPath} (here : ∀ path, temp = some path → path.paths = paths) :
    EStateM.Keeps (Accessed prims paths start)
      (persistReply prims outputDir inFlight elapsed frame temp) :=
  keeps_persistReply (fun path given => keeps_accessed_removeFileIfExists (here path given))
    (fun path index given =>
      keeps_accessed_persistDownloadedChunkFile (here path given) index outputDir elapsed)
    (fun chunk => keeps_accessed_persistDownloadedChunk chunk outputDir elapsed) inFlight frame

/-- Verifying and storing what a worker has received takes accesses only. -/
theorem keeps_accessed_storeReceivedChunk (outputDir : Option PathBuf) (entry : ChunkMeta)
    {temp : TempPath} (here : temp.paths = paths) (elapsed : Bool) (frame : ReceivedChunkFrame) :
    EStateM.Keeps (Accessed prims paths start)
      (storeReceivedChunk prims outputDir entry temp elapsed frame) := by
  have removed := @keeps_accessed_removeFileIfExists prims paths start temp here
  cases frame with
  | rawChunkFile index dataLen blake3Hash =>
      simp only [storeReceivedChunk]
      split
      · exact .bind removed fun _ => .throw _
      · split
        · exact .bind removed fun _ => .throw _
        · exact .bind (keeps_accessed_persistDownloadedChunkFile here entry.index outputDir elapsed)
            fun _ => .pure _
  | message message =>
      cases message with
      | chunk index data =>
          refine .bind removed fun _ => ?_
          split
          · exact .throw _
          · split
            · exact .throw _
            · exact .bind (keeps_accessed_persistDownloadedChunk _ outputDir elapsed)
                fun _ => .pure _
      | hello | capabilities | keyExchange | authProof | requestManifest | requestShare | manifest
      | wrappedFileKey | «have» | requestChunk | error =>
          exact .bind removed fun _ => .throw _

/-- What a computation on a session leaves, when it is known to end in one. -/
theorem accessed_of_keeps {α : Type} {computation : OnLibrary α} {session after : LibrarySession}
    (keeps : EStateM.Keeps (Accessed prims paths start) computation)
    (accessed : Accessed prims paths start session)
    (ends : (computation.run session).final = after) : Accessed prims paths start after :=
  ends ▸ keeps session accessed

section Windowed

variable {outputDir : Option PathBuf} {peerAvailable : TreeSet UInt32} {requestWindow : Nat}

/-- The temporary path that the loop has in hand. -/
def WindowPhase.temp : WindowPhase → Option TempPath
  | .received _ temp => temp
  | _ => none

/-- The loop has reached its session by accesses and receives into its own share. -/
def WindowedDownload.Accesses (prims : Primitives) (paths : LibraryPaths) (start : LibrarySession)
    (state : WindowedDownload) : Prop :=
  Accessed prims paths start state.session ∧
    ∀ temp, state.phase.temp = some temp → temp.paths = paths

theorem windowed_accesses_of_step {state next : WindowedDownload} {event : WindowEvent}
    (accesses : state.Accesses prims paths start)
    (step : (downloadMissingChunksWindowed prims outputDir peerAvailable requestWindow).step state
      event = some next) : next.Accesses prims paths start := by
  obtain ⟨accessed, temps⟩ := accesses
  cases windowMove_of_step step with
  | skip running | send running => exact ⟨accessed, temps⟩
  | sendFails | receiveMessageFails | finish => exact ⟨accessed, by simp [WindowPhase.temp]⟩
  | receiveMessage => exact ⟨accessed, by simp [WindowPhase.temp]⟩
  | complete persisted kept positive => exact ⟨accessed, by simp [WindowPhase.temp]⟩
  | @receive reply stagingTimestamp library frame rest session running full waiting active
      arrived =>
      have here := (accessed.handle active).1
      refine ⟨accessed_of_keeps (keeps_accessed_receiveChunkToFile here reply) accessed
        (by rw [arrived]; rfl), ?_⟩
      intro temp path
      obtain rfl : _ = temp := by simpa [WindowPhase.temp] using path
      exact here
  | @receiveFails reply stagingTimestamp library error session running full waiting active failed =>
      have here := (accessed.handle active).1
      exact ⟨accessed_of_keeps (keeps_accessed_receiveChunkToFile here reply) accessed
        (by rw [failed]; rfl), by simp [WindowPhase.temp]⟩
  | @persist elapsed frame temp index chunk session received persisted =>
      have here : ∀ path, temp = some path → path.paths = paths := by
        simpa [received, WindowPhase.temp] using temps
      exact ⟨accessed_of_keeps (keeps_accessed_persistReply outputDir state.loop.inFlight elapsed
        frame here) accessed (by rw [persisted]; rfl), by simp [WindowPhase.temp]⟩
  | @persistFails elapsed frame temp error session received failed =>
      have here : ∀ path, temp = some path → path.paths = paths := by
        simpa [received, WindowPhase.temp] using temps
      exact ⟨accessed_of_keeps (keeps_accessed_persistReply outputDir state.loop.inFlight elapsed
        frame here) accessed (by rw [failed]; rfl), by simp [WindowPhase.temp]⟩

/-- Whatever the windowed loop does from a state on, it does by accesses. -/
theorem windowed_accesses_of_reaches {state final : WindowedDownload}
    (holds : state.session.Holds paths)
    (temps : ∀ temp, state.phase.temp = some temp → temp.paths = paths)
    (reach : (downloadMissingChunksWindowed prims outputDir peerAvailable requestWindow).Reaches
      state final) :
    final.Accesses prims paths state.session :=
  Machine.invariant_of_reaches (fun _ _ _ => windowed_accesses_of_step)
    ⟨⟨.refl state.session, holds⟩, temps⟩ reach

end Windowed

section Workers

variable {manifest : Manifest} {outputDir : Option PathBuf} {peerCount : Nat}
  {available : Fin peerCount → TreeSet UInt32}

/-- The workers have reached their session by accesses and receive into their own share. -/
def ParallelDownload.Accesses (prims : Primitives) (paths : LibraryPaths)
    (start : LibrarySession) (state : ParallelDownload peerCount) : Prop :=
  Accessed prims paths start state.session ∧
    ∀ worker temp, (state.workers worker).temp = some temp → temp.paths = paths

theorem ParallelDownload.Accesses.move {state : ParallelDownload peerCount}
    (accesses : state.Accesses prims paths start) {worker : Fin peerCount}
    {position : DownloadWorker}
    (here : ∀ temp, position.temp = some temp → temp.paths = paths) :
    (state.move worker position).Accesses prims paths start := by
  refine ⟨accesses.1, ?_⟩
  intro other temp path
  by_cases same : other = worker
  · subst same
    exact here temp (by simpa [ParallelDownload.move] using path)
  · exact accesses.2 other temp (by simpa [ParallelDownload.move, same] using path)

theorem parallel_accesses_of_step {state next : ParallelDownload peerCount}
    {event : ParallelEvent peerCount} (accesses : state.Accesses prims paths start)
    (step : (parallelDownloadWorkers prims manifest outputDir available).step state event =
      some next) : next.Accesses prims paths start := by
  obtain ⟨accessed, temps⟩ := accesses
  have idle {current : ParallelDownload peerCount} {worker : Fin peerCount}
      {position : DownloadWorker} (session : current.session = state.session)
      (workers : current.workers = state.workers) (none : position.temp = none) :
      (current.move worker position).Accesses prims paths start :=
    .move ⟨session ▸ accessed, workers ▸ temps⟩ (by simp [none])
  have moved {session : LibrarySession} {worker : Fin peerCount} {position : DownloadWorker}
      (reached : Accessed prims paths start session)
      (here : ∀ temp, position.temp = some temp → temp.paths = paths) :
      ({ state with session }.move worker position).Accesses prims paths start := by
    have current : ({ state with session } : ParallelDownload peerCount).Accesses prims paths
        start := ⟨reached, temps⟩
    exact current.move here
  cases parallelMove_of_step step with
  | start | startFails | lock | giveUp | drop | take | unknown | requestFails | finish =>
      exact idle rfl rfl rfl
  | pop | rotate | complete | release => exact idle rfl rfl rfl
  | request requesting active =>
      refine .move ⟨accessed, temps⟩ fun temp path => ?_
      obtain rfl : _ = temp := by simpa [DownloadWorker.temp] using path
      exact (accessed.handle active).1
  | @receive worker reply entry temp frame rest session receiving arrived =>
      have here := temps worker temp (by simp [receiving, DownloadWorker.temp])
      refine moved (accessed_of_keeps (keeps_accessed_receiveChunkToFile here reply) accessed
        (by rw [arrived]; rfl)) fun path same => ?_
      obtain rfl : temp = path := by simpa [DownloadWorker.temp] using same
      exact here
  | @receiveFails worker reply entry temp error session receiving failed =>
      have here := temps worker temp (by simp [receiving, DownloadWorker.temp])
      exact moved (accessed_of_keeps (keeps_accessed_receiveChunkToFile here reply) accessed
        (by rw [failed]; rfl)) (by simp [DownloadWorker.temp])
  | @store worker elapsed entry temp frame length session received stored =>
      have here := temps worker temp (by simp [received, DownloadWorker.temp])
      exact moved (accessed_of_keeps (keeps_accessed_storeReceivedChunk outputDir entry here elapsed
        frame) accessed (by rw [stored]; rfl)) (by simp [DownloadWorker.temp])
  | @storeFails worker elapsed entry temp frame error session received failed =>
      have here := temps worker temp (by simp [received, DownloadWorker.temp])
      exact moved (accessed_of_keeps (keeps_accessed_storeReceivedChunk outputDir entry here elapsed
        frame) accessed (by rw [failed]; rfl)) (by simp [DownloadWorker.temp])

/-- Whatever the parallel workers do from a state on, they do by accesses. -/
theorem parallel_accesses_of_reaches {state final : ParallelDownload peerCount}
    (holds : state.session.Holds paths)
    (temps : ∀ worker temp, (state.workers worker).temp = some temp → temp.paths = paths)
    (reach : (parallelDownloadWorkers prims manifest outputDir available).Reaches state final) :
    final.Accesses prims paths state.session :=
  Machine.invariant_of_reaches (fun _ _ _ => parallel_accesses_of_step)
    ⟨⟨.refl state.session, holds⟩, temps⟩ reach

end Workers

/-- Whatever reconstructing and completing does to the share, it does by accesses. -/
theorem finishFromLibrary_accesses {outputPath : PathBuf} {peer : Manifest × SymmetricKey}
    {schedule : DecryptSchedule} {outputs : PathBuf → Option Bytes} {session : LibrarySession}
    {result : DownloadResult} (holds : session.Holds paths)
    (finished : finishFromLibrary prims outputPath peer schedule outputs session = some result) :
    ∃ after, Accessed prims paths session after ∧ result.final.disk = after.disk := by
  have initial : Accessed prims paths session session := ⟨.refl session, holds⟩
  obtain ⟨library, active, -⟩ := holds
  have marked := keeps_accessed_markDownloadLibraryComplete (outputParentDir outputPath) session
    initial
  simp only [finishFromLibrary, active, activeDownloadState] at finished
  split at finished
  · cases finished
  · split at finished
    · obtain rfl := Option.some.inj finished
      exact ⟨session, initial, rfl⟩
    · split at finished <;> obtain rfl := Option.some.inj finished
      · rename_i outcome
        rw [outcome] at marked
        exact ⟨_, marked, rfl⟩
      · rename_i outcome
        rw [outcome] at marked
        exact ⟨_, marked, rfl⟩

/-! ## The deletion -/

/-- A download that has prepared its library holds the share of its manifest. -/
theorem holds_of_prepareDownload {options : DownloadFileOptions} {root : PathBuf}
    (withLibrary : options.libraryRoot = some root) {outputDir : Option PathBuf}
    {peer : ConnectedDownloadPeer} {disk : Disk} {session : LibrarySession}
    {found : TreeSet UInt32 × TreeMap UInt32 EncryptedChunk}
    (prepared : (prepareDownload prims options outputDir peer).run { disk, active := none } =
      .ok found session) :
    session.Holds { root, shareId := (descriptorFromManifest prims peer.manifest).shareId } := by
  obtain ⟨error, -, failed⟩ | ⟨error, left, failed, -⟩ |
      ⟨completed, after, library, ran, records, -⟩ :=
    @run_prepareDownload prims _ _ _ withLibrary outputDir peer disk rfl
  · simp [failed] at prepared
  · simp [failed] at prepared
  · obtain ⟨-, rfl⟩ : _ = found ∧ after = session := by simpa using ran.symm.trans prepared
    exact ⟨library, records.active, records.located, records.owned⟩

end

/-! ## A share that comes back -/

end Etle
