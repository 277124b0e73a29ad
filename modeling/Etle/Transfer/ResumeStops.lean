import Etle.State.OneByteShare
import Etle.Transfer.DownloadRecords

/-!
# Where the opening of a download can be stopped

A resumed download reads the stored progress, writes all records of the share anew, with an empty
progress, and then writes the old progress back.  Each write is atomic, so a failure or the end of
the process leaves the library between two of them.
-/

namespace Etle

open EStateM

/-- The writes that store a progress and the operational state that goes with it. -/
def recordSteps (paths : LibraryPaths) (outputDir : Option PathBuf) (progress : DownloadProgress) :
    List (OnDisk Unit) :=
  [writeProgress paths progress,
    writeState paths (ShareState.fromProgress .downloading outputDir progress)]

/-- The writes that open a share for a download that starts from the given progress. -/
def openSteps (paths : LibraryPaths) (descriptor : EtleDescriptor) (fileKey : SymmetricKey)
    (outputDir : Option PathBuf) (progress : DownloadProgress) : List (OnDisk Unit) :=
  [createShareDirs paths,
    writeDescriptor paths descriptor,
    writeSecret paths { shareId := descriptor.shareId, fileKey },
    writeProgress paths (initialProgress descriptor .downloading),
    writeState paths
      (ShareState.fromProgress .downloading outputDir (initialProgress descriptor .downloading))] ++
    if progress.completedChunks.isEmpty then [] else recordSteps paths outputDir progress

/-- The writes that replace the progress by what is really there, if that can be found out. -/
def resumeSteps (prims : Primitives) (manifest : Manifest) (outputDir : Option PathBuf)
    (state : ActiveDownloadLibraryState) (disk : Disk) : List (OnDisk Unit) :=
  match resumableEntries prims disk state manifest.chunks with
  | .error _ => []
  | .ok valid =>
      recordSteps state.paths outputDir (progressOver state.paths.shareId (valid.map Prod.fst))

/-- The place of the share that a manifest describes. -/
def manifestPaths (prims : Primitives) (root : PathBuf) (manifest : Manifest) : LibraryPaths where
  root := root
  shareId := (descriptorFromManifest prims manifest).shareId

/-- The libraries that opening a resumed download can leave behind when it is stopped or a write
fails. -/
def resumeStops (prims : Primitives) (root : PathBuf) (manifest : Manifest)
    (fileKey : SymmetricKey) (outputDir : Option PathBuf) (disk : Disk) : List Disk :=
  let paths := manifestPaths prims root manifest
  match storedProgress prims disk paths true with
  | .error _ => [disk]
  | .ok progress =>
      let opening := openSteps paths (descriptorFromManifest prims manifest) fileKey outputDir
        progress
      let opened := ((inOrder opening).run disk).final
      stops opening disk ++
        stops (resumeSteps prims manifest outputDir { paths, progress, dirtyChunks := 0 } opened)
          opened

/-- Wherever the opening is stopped, the progress still lists the chunks it listed and whose file
verifies. -/
def KeepsListed (prims : Primitives) (root : PathBuf) (manifest : Manifest)
    (fileKey : SymmetricKey) (outputDir : Option PathBuf) (disk : Disk)
    (progress : DownloadProgress) : Prop :=
  ∀ left ∈ resumeStops prims root manifest fileKey outputDir disk, ∀ entry ∈ manifest.chunks,
    entry.index ∈ progress.completedChunks →
    chunkVerifies prims disk (manifestPaths prims root manifest) entry = true →
    ∃ stored, (left (manifestPaths prims root manifest)).progress = .value stored ∧
      entry.index ∈ stored.completedChunks

section

variable {prims : Primitives} {root : PathBuf} {manifest : Manifest} {fileKey : SymmetricKey}
  {outputDir : Option PathBuf} {disk : Disk} {progress : DownloadProgress}

theorem writeRecords_eq_inOrder (paths : LibraryPaths) (outputDir : Option PathBuf)
    (progress : DownloadProgress) :
    writeRecords paths .downloading outputDir progress =
      inOrder (recordSteps paths outputDir progress) := by
  simp [writeRecords, recordSteps, inOrder]

/-- Opening a share is reading its progress and taking the writes in order. -/
theorem initializeDownloadLibraryState_eq_inOrder (root : PathBuf) (descriptor : EtleDescriptor)
    (fileKey : SymmetricKey) (outputDir : Option PathBuf) :
    initializeDownloadLibraryState prims (some root) descriptor fileKey outputDir true =
      (do
        let paths : LibraryPaths := { root, shareId := descriptor.shareId }
        let progress ← EStateM.liftExcept id (storedProgress prims (← get) paths true)
        inOrder (openSteps paths descriptor fileKey outputDir progress)
        return some { paths, progress, dirtyChunks := 0 }) := by
  simp only [initializeDownloadLibraryState]
  refine bind_congr fun disk => bind_congr fun progress => ?_
  by_cases empty : progress.completedChunks.isEmpty = true
  · simp [libraryInit, openSteps, inOrder, empty, -bind_pure_comp]
  · simp [libraryInit, openSteps, inOrder, empty, writeRecords_eq_inOrder, recordSteps,
      -bind_pure_comp]

/-- Loading what can be resumed is taking the writes for it in order. -/
theorem final_loadResumableChunkIndexes (manifest : Manifest) (outputDir : Option PathBuf)
    (state : ActiveDownloadLibraryState) (disk : Disk) :
    ((loadResumableChunkIndexes prims manifest outputDir).run
      { disk, active := some state }).final.disk =
        ((inOrder (resumeSteps prims manifest outputDir state disk)).run disk).final := by
  cases found : resumableEntries prims disk state manifest.chunks with
  | error error => simp [loadResumableChunkIndexes, storeResumed, resumeSteps, found, inOrder]
  | ok valid =>
      have owned := (progressOver_spec state.paths.shareId (valid.map Prod.fst)).1
      have written := run_writeRecords owned .downloading outputDir disk
      rw [run_loadResumableChunkIndexes_of_valid outputDir rfl found]
      simp only [resumeSteps, found, ← writeRecords_eq_inOrder, written, Result.final_ok]
      rfl

/-- Opening a share over progress that can be read takes all of its writes. -/
theorem run_openSteps
    (found : storedProgress prims disk (manifestPaths prims root manifest) true = .ok progress) :
    ∃ opened,
      (initializeDownloadLibraryState prims (some root) (descriptorFromManifest prims manifest)
        fileKey outputDir true).run disk =
          .ok (some { paths := manifestPaths prims root manifest, progress, dirtyChunks := 0 })
            opened ∧
      (inOrder (openSteps (manifestPaths prims root manifest)
        (descriptorFromManifest prims manifest) fileKey outputDir progress)).run disk =
          .ok () opened := by
  obtain ⟨error, unread, -⟩ | ⟨stored, opened, read, ran, -⟩ :=
    run_initializeDownloadLibraryState prims root (descriptorFromManifest prims manifest)
      fileKey outputDir true disk (rfl : manifestPaths prims root manifest = _)
  · simp [unread] at found
  · obtain rfl : progress = stored := by simpa [read] using found.symm
    refine ⟨_, ran, ?_⟩
    rw [initializeDownloadLibraryState_eq_inOrder] at ran
    simp only [run_bind_eq_ok, run_liftExcept_eq_ok, run_get, run_pure, Result.ok.injEq] at ran
    obtain ⟨_, _, ⟨rfl, rfl⟩, started, _, ⟨same, rfl⟩, _, _, taken, -, rfl⟩ := ran
    obtain rfl : progress = started := Except.ok.inj (found.symm.trans same)
    exact taken

theorem resumeStops_of_stored
    (found : storedProgress prims disk (manifestPaths prims root manifest) true = .ok progress)
    {opened : Disk} (taken : (inOrder (openSteps (manifestPaths prims root manifest)
      (descriptorFromManifest prims manifest) fileKey outputDir progress)).run disk =
        .ok () opened) :
    resumeStops prims root manifest fileKey outputDir disk =
      stops (openSteps (manifestPaths prims root manifest) (descriptorFromManifest prims manifest)
        fileKey outputDir progress) disk ++
      stops (resumeSteps prims manifest outputDir
        { paths := manifestPaths prims root manifest, progress, dirtyChunks := 0 } opened)
          opened := by
  simp [resumeStops, found, taken]

/-- The library that opening a resumed download ends with, successful or not, is one it can be
stopped in. -/
theorem final_mem_resumeStops {options : DownloadFileOptions} {peer : ConnectedDownloadPeer}
    (withLibrary : options.libraryRoot = some root) (resumes : options.resume = true)
    (outputDir : Option PathBuf) (disk : Disk) :
    ((prepareDownload prims options outputDir peer).run { disk, active := none }).final.disk ∈
      resumeStops prims root peer.manifest peer.fileKey outputDir disk := by
  cases found : storedProgress prims disk (manifestPaths prims root peer.manifest) true with
  | error error =>
      rw [run_prepareDownload_of_unread withLibrary outputDir peer disk rfl (resumes ▸ found)]
      simp [resumeStops, found]
  | ok progress =>
      obtain ⟨opened, ran, taken⟩ := run_openSteps found
      rw [run_prepareDownload_of_opened withLibrary (resumes ▸ ran),
        resumeStops_of_stored found taken]
      have resumed := final_mem_stops (resumeSteps prims peer.manifest outputDir
        { paths := manifestPaths prims root peer.manifest, progress, dirtyChunks := 0 } opened)
        opened
      rw [← final_loadResumableChunkIndexes] at resumed
      refine List.mem_append_right _ ?_
      cases outcome : (loadResumableChunkIndexes prims peer.manifest outputDir).run _ <;>
        simpa [outcome] using resumed

/-- After the first four writes of the opening the progress lists nothing. -/
theorem exists_stop_listing_nothing
    (found : storedProgress prims disk (manifestPaths prims root manifest) true = .ok progress) :
    ∃ left ∈ resumeStops prims root manifest fileKey outputDir disk,
      (left (manifestPaths prims root manifest)).progress =
        .value (.empty (manifestPaths prims root manifest).shareId) := by
  obtain ⟨opened, -, taken⟩ := run_openSteps found
  rw [resumeStops_of_stored found taken]
  obtain ⟨left, written, listing⟩ : ∃ left, (inOrder ((openSteps (manifestPaths prims root manifest)
      (descriptorFromManifest prims manifest) fileKey outputDir progress).take 4)).run disk =
        .ok () left ∧
      (left (manifestPaths prims root manifest)).progress =
        .value (.empty (manifestPaths prims root manifest).shareId) := by
    refine ⟨Function.update disk (manifestPaths prims root manifest)
      { disk (manifestPaths prims root manifest) with
        present := true
        descriptor := .value (descriptorFromManifest prims manifest)
        secret := .value { shareId := (manifestPaths prims root manifest).shareId, fileKey }
        progress := .value (.empty (manifestPaths prims root manifest).shareId) }, ?_, by simp⟩
    simp [openSteps, inOrder, createShareDirs, writeDescriptor, writeSecret, writeProgress,
      initialProgress, manifestPaths, -bind_pure_comp]
  refine ⟨left, List.mem_append_left _ ?_, listing⟩
  have stopped := mem_stops_append written ((openSteps (manifestPaths prims root manifest)
    (descriptorFromManifest prims manifest) fileKey outputDir progress).drop 4)
  rwa [List.take_append_drop] at stopped

/-- A listed chunk that verifies is not listed any more while the share is being opened. -/
theorem not_keepsListed
    (found : storedProgress prims disk (manifestPaths prims root manifest) true = .ok progress)
    {entry : ChunkMeta} (member : entry ∈ manifest.chunks)
    (listed : entry.index ∈ progress.completedChunks)
    (verifies : chunkVerifies prims disk (manifestPaths prims root manifest) entry = true) :
    ¬KeepsListed prims root manifest fileKey outputDir disk progress := by
  intro keeps
  obtain ⟨left, stopped, listing⟩ :=
    @exists_stop_listing_nothing _ _ _ fileKey outputDir _ _ found
  obtain ⟨later, kept, still⟩ := keeps left stopped entry member listed verifies
  obtain rfl : DownloadProgress.empty _ = later := by simpa [listing] using kept
  simp at still

/-- Resuming reads the stored progress unless there is a descriptor that cannot be read. -/
theorem storedProgress_of_value {paths : LibraryPaths}
    (stored : (disk paths).progress = .value progress)
    (owned : progress.shareId = paths.shareId) :
    (((disk paths).descriptor.isFile = true ∧
        ∃ error, readDescriptor prims disk paths = .error error) ∧
      ∃ error, storedProgress prims disk paths true = .error error) ∨
    (¬((disk paths).descriptor.isFile = true ∧
        ∃ error, readDescriptor prims disk paths = .error error) ∧
      storedProgress prims disk paths true = .ok progress) := by
  have file : (disk paths).progress.isFile = true := by rw [stored]; rfl
  have read := readProgress_of_value stored owned
  cases described : (disk paths).descriptor.isFile with
  | false =>
      refine .inr ⟨by simp, ?_⟩
      simp [storedProgress, file, described, read, pure, Except.pure]
  | true =>
      cases outcome : readDescriptor prims disk paths with
      | error error =>
          refine .inl ⟨⟨rfl, error, rfl⟩, error, ?_⟩
          simp [storedProgress, file, described, outcome, bind, Except.bind]
      | ok descriptor =>
          refine .inr ⟨by simp, ?_⟩
          simp [storedProgress, file, described, outcome, read, bind, Except.bind, pure,
            Except.pure]

/-- Opening a resumed download keeps what the progress listed exactly when it writes nothing, since
the stored descriptor cannot be read, or when none of the listed chunks verifies. -/
theorem resume_keepsListed_iff
    (stored : (disk (manifestPaths prims root manifest)).progress = .value progress)
    (owned : progress.shareId = (manifestPaths prims root manifest).shareId) :
    KeepsListed prims root manifest fileKey outputDir disk progress ↔
      ((disk (manifestPaths prims root manifest)).descriptor.isFile = true ∧
        ∃ error, readDescriptor prims disk (manifestPaths prims root manifest) = .error error) ∨
      ∀ entry ∈ manifest.chunks, entry.index ∈ progress.completedChunks →
        chunkVerifies prims disk (manifestPaths prims root manifest) entry = false := by
  obtain ⟨unreadable, error, failed⟩ | ⟨readable, found⟩ :=
    @storedProgress_of_value prims _ _ _ stored owned
  · refine ⟨fun _ => .inl unreadable, fun _ left stopped entry _ listed _ => ?_⟩
    obtain rfl : left = disk := by simpa [resumeStops, failed] using stopped
    exact ⟨progress, stored, listed⟩
  · constructor
    · intro keeps
      refine .inr fun entry member listed => ?_
      by_contra verifies
      exact not_keepsListed found member listed (by simpa using verifies) keeps
    · rintro (unreadable | nothing) left stopped entry member listed verifies
      · exact absurd unreadable readable
      · simp [nothing entry member listed] at verifies

end

/-- A share with one chunk, stored and listed. -/
def listedDisk : Disk := fun paths =>
  { oneByteDisk paths with progress := .value (.new paths.shareId [0]) }

/-- Opening a share keeps its progress when the listed chunk belongs to another manifest. -/
theorem resume_keeps_unlisted :
    KeepsListed transparentPrimitives ["library"] (oneByteManifest [1]) sampleKey none listedDisk
      (.new (manifestPaths transparentPrimitives ["library"] (oneByteManifest [1])).shareId
        [0]) := by
  refine (resume_keepsListed_iff rfl rfl).mpr (.inr ?_)
  intro entry member listed
  obtain rfl : entry = oneByteEntry 1 := by simpa [oneByteManifest] using member
  exact absurd listed (by decide)

/-- The only chunk of a share, stored and listed, is for a while not listed any more. -/
theorem resume_loses_listed_chunk :
    chunkVerifies transparentPrimitives listedDisk
        (manifestPaths transparentPrimitives ["library"] (oneByteManifest [0])) (oneByteEntry 0) =
          true ∧
      ¬KeepsListed transparentPrimitives ["library"] (oneByteManifest [0]) sampleKey none listedDisk
        (.new (manifestPaths transparentPrimitives ["library"] (oneByteManifest [0])).shareId
          [0]) := by
  have verifies : chunkVerifies transparentPrimitives listedDisk
      (manifestPaths transparentPrimitives ["library"] (oneByteManifest [0])) (oneByteEntry 0) =
        true := chunkVerifies_iff.mpr ⟨oneByteChunk 0, rfl, rfl, rfl⟩
  refine ⟨verifies, not_keepsListed ?_ (by simp [oneByteManifest]) (by decide) verifies⟩
  obtain ⟨⟨described, -⟩, -⟩ | ⟨-, found⟩ :=
    @storedProgress_of_value transparentPrimitives listedDisk _
      (manifestPaths transparentPrimitives ["library"] (oneByteManifest [0])) rfl rfl
  · cases described
  · exact found

end Etle
