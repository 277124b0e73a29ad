import Etle.Transfer.CompletedDownload

/-!
# The records of a share during a parallel download

Workers that share a library keep its records whatever their peers send and however they take turns,
also when two of them happen to choose the same temporary file: a store that fails may have lost
chunk files, but it has marked nothing.  The marked indices are the completed ones and those that
some worker is about to complete.
-/

namespace Etle

open Std (TreeMap TreeSet)

/-- Two disks differ at most in the chunk files of one share. -/
structure OnlyFiles (paths : LibraryPaths) (before after : Disk) : Prop where
  others : ∀ other, other ≠ paths → after other = before other
  descriptor : (after paths).descriptor = (before paths).descriptor
  secret : (after paths).secret = (before paths).secret
  progress : (after paths).progress = (before paths).progress
  state : (after paths).state = (before paths).state

theorem onlyFiles_update (paths : LibraryPaths) (disk : Disk) (present : Bool)
    (files : ChunkFile → Option Bytes) :
    OnlyFiles paths disk
      (Function.update disk paths { disk paths with present, chunks := files }) := by
  refine ⟨fun other different => by simp [different], ?_, ?_, ?_, ?_⟩ <;> simp

section

variable {prims : Primitives} {paths : LibraryPaths} {descriptor : EtleDescriptor}
  {fileKey : SymmetricKey} {before : Disk} {outputDir : Option PathBuf}
  {session after : LibrarySession} {library : ActiveDownloadLibraryState}

/-- Chunk files are not records. -/
theorem DownloadRecords.of_onlyFiles
    (records : DownloadRecords paths descriptor fileKey before session library)
    (only : OnlyFiles paths session.disk after.disk) (active : after.active = session.active) :
    DownloadRecords paths descriptor fileKey before after library := by
  refine ⟨active.trans records.active, records.located, records.owned, records.ordered, ?_, ?_, ?_,
    fun other different => ?_, ?_⟩
  · exact only.descriptor.trans records.described
  · exact only.secret.trans records.keyed
  · rw [only.progress]
    exact records.flushed
  · exact (only.others other different).trans (records.downloading.others other different)
  · rw [only.state]
    exact records.downloading.mode

/-- Moving a temporary file into the library records its chunk, or fails having touched chunk files
only. -/
theorem persistDownloadedChunkFile_ends (active : session.active = some library)
    (owned : library.Owned) {temp : TempPath} (same : temp.paths = library.paths) (index : UInt32)
    (outputDir : Option PathBuf) (elapsed : Bool) :
    (∃ after files, (persistDownloadedChunkFile index temp outputDir elapsed).run session =
        .ok () after ∧ Recorded library index outputDir files session after) ∨
    (∃ error disk, (persistDownloadedChunkFile index temp outputDir elapsed).run session =
        .error error { session with disk } ∧ OnlyFiles library.paths session.disk disk) := by
  cases received : (session.disk library.paths).chunks (.part temp.index temp.suffix) with
  | some data =>
      obtain ⟨after, persisted, recorded⟩ :=
        persistDownloadedChunkFile_spec active owned same received index outputDir elapsed
      exact .inl ⟨after, _, persisted, recorded⟩
  | none =>
      have created := run_createShareDirs library.paths session
      have lost : (onDisk (renameToChunk temp library.paths index)).run
          (session.withFiles library.paths (session.disk library.paths).chunks) =
            .error (.file (.io .notFound)) (session.withFiles library.paths
              (Function.update (session.disk library.paths).chunks (.chunk index) none)) := by
        simp [onDisk, EStateM.run_zoom, renameToChunk, removeFile, changeShare, same, received,
          LibrarySession.withFiles, -bind_pure_comp]
      refine .inr ⟨.file (.io .notFound), _, ?_, onlyFiles_update library.paths session.disk true
        (Function.update (session.disk library.paths).chunks (.chunk index) none)⟩
      simp [persistDownloadedChunkFile, active, created, lost, -bind_pure_comp]
      simp [LibrarySession.withFiles, active]

/-- A worker's store marks its chunk when it succeeds, and keeps the records when it fails. -/
theorem storeReceivedChunk_records
    (records : DownloadRecords paths descriptor fileKey before session library) {temp : TempPath}
    (same : temp.paths = paths) (entry : ChunkMeta) (elapsed : Bool) (frame : ReceivedChunkFrame) :
    (∃ length after next,
      (storeReceivedChunk prims outputDir entry temp elapsed frame).run session =
        .ok length after ∧
      DownloadRecords paths descriptor fileKey before after next ∧
      next.progress = library.progress.markCompleted entry.index) ∨
    (∃ error after, (storeReceivedChunk prims outputDir entry temp elapsed frame).run session =
        .error error after ∧
      DownloadRecords paths descriptor fileKey before after library) := by
  obtain rfl := records.located
  obtain ⟨disk, removed, only⟩ := run_removeFileIfExists temp session
  have emptied : DownloadRecords library.paths descriptor fileKey before { session with disk }
      library := records.of_onlyTemp same only rfl
  cases frame with
  | rawChunkFile index dataLen blake3Hash =>
      by_cases expected : index = entry.index
      · by_cases hash : blake3Hash = entry.blake3Hash.bytes
        · obtain ⟨after, files, persisted, recorded⟩ | ⟨error, left, failed, files⟩ :=
            persistDownloadedChunkFile_ends records.active records.owned same entry.index outputDir
              elapsed
          · obtain ⟨next, marked⟩ := records.of_recorded recorded
            exact .inl ⟨dataLen, after, next,
              by simp [storeReceivedChunk, expected, hash, persisted, -bind_pure_comp], marked⟩
          · exact .inr ⟨error, { session with disk := left },
              by simp [storeReceivedChunk, expected, hash, failed, -bind_pure_comp],
              records.of_onlyFiles files rfl⟩
        · exact .inr ⟨_, _, by simp [storeReceivedChunk, expected, hash, removed]; rfl, emptied⟩
      · exact .inr ⟨_, _, by simp [storeReceivedChunk, expected, removed]; rfl, emptied⟩
  | message message =>
      cases message with
      | chunk index data =>
          by_cases expected : index = entry.index
          · by_cases hash : hashChunk prims data = entry.blake3Hash
            · obtain ⟨after, persisted, recorded⟩ :=
                persistDownloadedChunk_spec emptied.active emptied.owned { index, data } outputDir
                  elapsed
              obtain ⟨next, marked⟩ := emptied.of_recorded recorded
              refine .inl ⟨data.length, after, next, ?_, expected ▸ marked⟩
              subst expected
              simp [storeReceivedChunk, hash, removed, persisted, -bind_pure_comp]
            · exact .inr ⟨_, _, by simp [storeReceivedChunk, expected, hash, removed]; rfl, emptied⟩
          · exact .inr ⟨_, _, by simp [storeReceivedChunk, expected, removed]; rfl, emptied⟩
      | error text => exact .inr ⟨_, _, by simp [storeReceivedChunk, removed]; rfl, emptied⟩
      | hello | capabilities | keyExchange | authProof | requestManifest | requestShare | manifest
      | wrappedFileKey | «have» | requestChunk =>
          exact .inr ⟨_, _, by simp [storeReceivedChunk, removed]; rfl, emptied⟩

end

/-! ## The workers -/

section Workers

variable {prims : Primitives} {paths : LibraryPaths} {descriptor : EtleDescriptor}
  {fileKey : SymmetricKey} {before : Disk} {outputDir : Option PathBuf} {manifest : Manifest}
  {peerCount : Nat} {available : Fin peerCount → TreeSet UInt32}

/-- A worker fetches chunks of the manifest, through temporary files of the share. -/
def DownloadWorker.Fetches (manifest : Manifest) (paths : LibraryPaths) : DownloadWorker → Prop
  | .requesting entry => entry ∈ manifest.chunks
  | .receiving entry temp | .received entry temp _ => entry ∈ manifest.chunks ∧ temp.paths = paths
  | .completing index => index ∈ manifest.indices
  | _ => True

/-- What the workers keep while they fill a library. -/
structure WorkersRecords (paths : LibraryPaths) (descriptor : EtleDescriptor)
    (fileKey : SymmetricKey) (before : Disk) (manifest : Manifest)
    (state : ParallelDownload peerCount) (library : ActiveDownloadLibraryState) : Prop where
  records : DownloadRecords paths descriptor fileKey before state.session library
  fetches : ∀ worker, (state.workers worker).Fetches manifest paths
  inside : ∀ index ∈ state.completed, index ∈ manifest.indices
  marked : ∀ index, index ∈ library.progress.completedChunks ↔
    index ∈ state.completed ∨ ∃ worker, state.workers worker = .completing index

/-- The others complete what they are about to, whatever one worker does instead of something
else. -/
theorem completing_move {state : ParallelDownload peerCount} {worker : Fin peerCount}
    (position : DownloadWorker) (idle : ∀ index, state.workers worker ≠ .completing index)
    (index : UInt32) :
    (∃ other, (state.move worker position).workers other = .completing index) ↔
      position = .completing index ∨ ∃ other, state.workers other = .completing index := by
  constructor
  · rintro ⟨other, completing⟩
    by_cases same : other = worker
    · subst same
      exact .inl (by simpa [ParallelDownload.move] using completing)
    · exact .inr ⟨other, by simpa [ParallelDownload.move, same] using completing⟩
  · rintro (rfl | ⟨other, completing⟩)
    · exact ⟨worker, by simp [ParallelDownload.move]⟩
    · have different : other ≠ worker := fun same => idle index (same ▸ completing)
      exact ⟨other, by simpa [ParallelDownload.move, different] using completing⟩

/-- A worker that completes nothing and goes on to complete nothing keeps the records. -/
theorem WorkersRecords.move {state : ParallelDownload peerCount} {worker : Fin peerCount}
    {library : ActiveDownloadLibraryState} (queue : List UInt32) {session : LibrarySession}
    {position : DownloadWorker}
    (kept : WorkersRecords paths descriptor fileKey before manifest state library)
    (records : DownloadRecords paths descriptor fileKey before session library)
    (idle : ∀ index, state.workers worker ≠ .completing index)
    (stays : ∀ index, position ≠ .completing index) (fetches : position.Fetches manifest paths) :
    WorkersRecords paths descriptor fileKey before manifest
      ({ state with queue, session }.move worker position) library := by
  refine ⟨records, fun other => ?_, kept.inside, fun index => ?_⟩
  · by_cases same : other = worker
    · subst same
      simpa [ParallelDownload.move] using fetches
    · simpa [ParallelDownload.move, same] using kept.fetches other
  · rw [kept.marked, @completing_move _ { state with queue, session } worker position idle index]
    simp [ParallelDownload.move, stays]

/-- Every step of a worker keeps the records. -/
theorem workersRecords_of_step (state : ParallelDownload peerCount)
    (event : ParallelEvent peerCount) (next : ParallelDownload peerCount)
    (kept : ∃ library, WorkersRecords paths descriptor fileKey before manifest state library)
    (step : (parallelDownloadWorkers prims manifest outputDir available).step state event =
      some next) :
    ∃ library, WorkersRecords paths descriptor fileKey before manifest next library := by
  obtain ⟨library, kept⟩ := kept
  have records := kept.records
  cases parallelMove_of_step step with
  | start at_worker | startFails at_worker | lock at_worker _ | pop at_worker _ | giveUp at_worker
  | drop at_worker _ | unknown at_worker _ | rotate at_worker | requestFails at_worker
  | release at_worker _ | finish at_worker =>
      exact ⟨library, kept.move _ records (by simp [at_worker]) (by simp) trivial⟩
  | take examining missing has member =>
      exact ⟨library, kept.move _ records (by simp [examining]) (by simp) member⟩
  | @request worker stamp entry handle requesting active =>
      obtain rfl : handle = library := by simpa [records.active] using active.symm
      have member : entry ∈ manifest.chunks := by
        simpa [DownloadWorker.Fetches, requesting] using kept.fetches worker
      exact ⟨handle, kept.move _ records (by simp [requesting]) (by simp)
        ⟨member, records.located⟩⟩
  | @receive worker reply entry temp frame rest session receiving arrived =>
      obtain ⟨member, same⟩ : entry ∈ manifest.chunks ∧ temp.paths = paths := by
        simpa [DownloadWorker.Fetches, receiving] using kept.fetches worker
      obtain ⟨active, only, -⟩ := receiveChunkToFile_ok arrived
      exact ⟨library, kept.move _ (records.of_onlyTemp same only active) (by simp [receiving])
        (by simp) ⟨member, same⟩⟩
  | @receiveFails worker reply entry temp error session receiving failed =>
      obtain ⟨-, same⟩ : entry ∈ manifest.chunks ∧ temp.paths = paths := by
        simpa [DownloadWorker.Fetches, receiving] using kept.fetches worker
      obtain ⟨active, only⟩ := receiveChunkToFile_error failed
      exact ⟨library, kept.move _ (records.of_onlyTemp same only active) (by simp [receiving])
        (by simp) trivial⟩
  | @store worker elapsed entry temp frame length session received stored =>
      obtain ⟨member, same⟩ : entry ∈ manifest.chunks ∧ temp.paths = paths := by
        simpa [DownloadWorker.Fetches, received] using kept.fetches worker
      obtain ⟨found, after, handle, outcome, handle_records, progress⟩ | ⟨_, _, outcome, -⟩ :=
        storeReceivedChunk_records records same entry elapsed frame
      · obtain ⟨-, rfl⟩ : found = length ∧ after = session := by
          simpa using outcome.symm.trans stored
        refine ⟨handle, handle_records, fun other => ?_, kept.inside, fun index => ?_⟩
        · by_cases mine : other = worker
          · have known : entry.index ∈ manifest.indices := List.mem_map_of_mem member
            subst mine
            simpa [ParallelDownload.move, DownloadWorker.Fetches] using known
          · simpa [ParallelDownload.move, mine] using kept.fetches other
        · rw [progress, DownloadProgress.mem_markCompleted records.ordered, kept.marked,
            completing_move _ (by simp [received])]
          simp [ParallelDownload.move, or_left_comm, eq_comm]
      · cases outcome.symm.trans stored
  | @storeFails worker elapsed entry temp frame error session received failed =>
      obtain ⟨-, same⟩ : entry ∈ manifest.chunks ∧ temp.paths = paths := by
        simpa [DownloadWorker.Fetches, received] using kept.fetches worker
      obtain ⟨_, _, _, outcome, -⟩ | ⟨cause, after, outcome, left⟩ :=
        storeReceivedChunk_records records same entry elapsed frame
      · cases outcome.symm.trans failed
      · obtain ⟨-, rfl⟩ : cause = error ∧ after = session := by
          simpa using outcome.symm.trans failed
        exact ⟨library, kept.move _ left (by simp [received]) (by simp) trivial⟩
  | @complete worker index completing =>
      have known : index ∈ manifest.indices := by
        simpa [DownloadWorker.Fetches, completing] using kept.fetches worker
      refine ⟨library, records, fun other => ?_, fun other member => ?_, fun other => ?_⟩
      · by_cases mine : other = worker
        · subst mine
          simp [ParallelDownload.move, DownloadWorker.Fetches]
        · simpa [ParallelDownload.move, mine] using kept.fetches other
      · rw [ParallelDownload.move, TreeSet.mem_insert, Std.LawfulEqCmp.compare_eq_iff_eq] at member
        obtain rfl | earlier := member
        · exact known
        · exact kept.inside other earlier
      · rw [kept.marked]
        simp only [ParallelDownload.move, TreeSet.mem_insert, Std.LawfulEqCmp.compare_eq_iff_eq]
        constructor
        · rintro (member | ⟨finder, found⟩)
          · exact .inl (.inr member)
          · by_cases mine : finder = worker
            · subst mine
              exact .inl (.inl (by simpa using completing.symm.trans found))
            · exact .inr ⟨finder, by simpa [mine] using found⟩
        · rintro ((rfl | member) | ⟨finder, found⟩)
          · exact .inr ⟨worker, completing⟩
          · exact .inl member
          · by_cases mine : finder = worker
            · subst mine
              simp at found
            · exact .inr ⟨finder, by simpa [mine] using found⟩

/-- The records when all workers have ended: what is marked is what is completed. -/
theorem workersRecords_of_run {completed : TreeSet UInt32} {session : LibrarySession}
    {library : ActiveDownloadLibraryState} {events : List (ParallelEvent peerCount)}
    {state : ParallelDownload peerCount}
    (records : DownloadRecords paths descriptor fileKey before session library)
    (inside : ∀ index ∈ completed, index ∈ manifest.indices)
    (marked : ∀ index, index ∈ library.progress.completedChunks ↔ index ∈ completed)
    (run : (parallelDownloadWorkers prims manifest outputDir available).run
      (.initial manifest completed session peerCount) events = some state)
    (ended : state.AllEnded) :
    ∃ final, DownloadRecords paths descriptor fileKey before state.session final ∧
      (∀ index ∈ state.completed, index ∈ manifest.indices) ∧
      ∀ index, index ∈ final.progress.completedChunks ↔ index ∈ state.completed := by
  obtain ⟨final, kept⟩ : ∃ final,
      WorkersRecords paths descriptor fileKey before manifest state final := by
    refine Machine.invariant_of_reaches workersRecords_of_step
      ⟨library, records, fun worker => ?_, inside, fun index => ?_⟩ ⟨events, run⟩
    · simp [ParallelDownload.initial, DownloadWorker.Fetches]
    · simpa [ParallelDownload.initial] using marked index
  refine ⟨final, kept.records, kept.inside, fun index => ?_⟩
  rw [kept.marked]
  refine or_iff_left ?_
  rintro ⟨worker, completing⟩
  obtain ⟨outcome, at_end⟩ := ended worker
  simp [at_end] at completing

end Workers

end Etle
