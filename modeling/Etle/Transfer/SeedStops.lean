import Etle.State.OneByteShare
import Etle.Transfer.SeedAdd

/-!
# Where seeding can be stopped

A share is stored by about four kinds of writes.  Each is atomic, since a record is renamed into
place and a chunk is moved, so a failure or the end of the process leaves the library between two of
them.  The full progress is stored before the first chunk is moved.
-/

namespace Etle

open EStateM

/-- Every chunk that the stored progress lists is in place and is the one the descriptor records. -/
def ProgressBacked (prims : Primitives) (disk : Disk) (paths : LibraryPaths) : Prop :=
  ∀ descriptor progress, (disk paths).descriptor = .value descriptor →
    (disk paths).progress = .value progress → ∀ index ∈ progress.completedChunks,
      ∃ entry ∈ descriptor.chunks, entry.index = index ∧ chunkVerifies prims disk paths entry

/-- The writes that initialise a share for seeding. -/
def initSteps (paths : LibraryPaths) (descriptor : EtleDescriptor) (fileKey : SymmetricKey) :
    List (OnDisk Unit) :=
  [createShareDirs paths,
    writeDescriptor paths descriptor,
    writeSecret paths { shareId := descriptor.shareId, fileKey },
    writeProgress paths (initialProgress descriptor .seeding),
    writeState paths
      (ShareState.fromProgress .seeding none (initialProgress descriptor .seeding))]

/-- The removals and renames that move staged chunks into the share. -/
def moveSteps (paths : LibraryPaths) (staged : UInt32 → Option Bytes) :
    List ChunkMeta → List (EStateM NetworkError Disk Unit)
  | [] => []
  | entry :: rest =>
      zoom id (fun disk _ => disk) .file (removeFile paths (.chunk entry.index)) ::
        (match staged entry.index with
        | none => throw (.io .notFound)
        | some data =>
            zoom id (fun disk _ => disk) .file (writeChunk paths { index := entry.index, data })) ::
        moveSteps paths (Function.update staged entry.index none) rest

section

variable (prims : Primitives) (input : SeedInput) (fileKey : SymmetricKey) (chunkSize : Nat)
  (libraryRoot : PathBuf)

/-- The descriptor of an encrypted file. -/
def seedDescriptor (chunkMetas : List ChunkMeta) : EtleDescriptor :=
  descriptorFromManifest prims (seedManifest prims input chunkSize chunkMetas)

/-- The place of the new share. -/
def seedPaths (chunkMetas : List ChunkMeta) : LibraryPaths where
  root := libraryRoot
  shareId := (seedDescriptor prims input chunkSize chunkMetas).shareId

/-- The writes that store an encrypted file as a share. -/
def storeSteps (chunkMetas : List ChunkMeta) (staged : UInt32 → Option Bytes) :
    List (EStateM NetworkError Disk Unit) :=
  (initSteps (seedPaths prims input chunkSize libraryRoot chunkMetas)
    (seedDescriptor prims input chunkSize chunkMetas) fileKey).map
      (zoom id (fun disk _ => disk) .file) ++
    moveSteps (seedPaths prims input chunkSize libraryRoot chunkMetas) staged chunkMetas

/-- The encryption of the input succeeds, with this metadata and these staged chunks. -/
def Staged (schedule : SeedSchedule) (chunkMetas : List ChunkMeta)
    (staged : UInt32 → Option Bytes) : Prop :=
  ∃ final, (encryptFileToStagingParallel prims (hashFileId prims input.content) fileKey
      (defaultSeedWorkerCount schedule.availableParallelism)).run (.initial input.script _)
        (schedule.events _) = some final ∧
    final.reader = .returned (.ok chunkMetas) ∧ final.staged = staged

/-- The libraries that seeding can leave behind when it is stopped or an operation fails.  Nothing
is written to the library before the staging of the chunks has succeeded. -/
def seedStops (schedule : SeedSchedule) (disk : Disk) : List Disk :=
  if chunkSize = 0 then
    [disk]
  else
    let workerCount := defaultSeedWorkerCount schedule.availableParallelism
    match (encryptFileToStagingParallel prims (hashFileId prims input.content) fileKey
        workerCount).run (.initial input.script workerCount) (schedule.events workerCount) with
    | some { reader := .returned (.ok chunkMetas), staged, .. } =>
        stops (storeSteps prims input fileKey chunkSize libraryRoot chunkMetas staged) disk
    | _ => [disk]

end

section

variable {prims : Primitives} {input : SeedInput} {fileKey : SymmetricKey} {chunkSize : Nat}
  {libraryRoot : PathBuf}

theorem zoom_bind {α β : Type} (first : OnDisk α) (second : α → OnDisk β) :
    zoom id (fun disk _ => disk) NetworkError.file (first >>= second) =
      (zoom id (fun disk _ => disk) NetworkError.file first >>= fun value =>
        zoom id (fun disk _ => disk) NetworkError.file (second value)) := by
  funext disk
  simp only [zoom, run_bind, id_eq]
  change _ = (run (_ >>= _) disk)
  rw [run_bind]
  cases outcome : first.run disk <;> simp [zoom, run, show first disk = _ from outcome]

theorem zoom_inOrder (operations : List (OnDisk Unit)) :
    zoom id (fun disk _ => disk) NetworkError.file (inOrder operations) =
      inOrder (operations.map (zoom id (fun disk _ => disk) NetworkError.file)) := by
  induction operations with
  | nil => rfl
  | cons operation rest ih => simp only [inOrder, List.map_cons, zoom_bind, ih]

theorem moveChunks_eq_inOrder (paths : LibraryPaths) (staged : UInt32 → Option Bytes)
    (entries : List ChunkMeta) :
    moveChunks paths staged entries = inOrder (moveSteps paths staged entries) := by
  induction entries generalizing staged with
  | nil => rfl
  | cons entry rest ih =>
      simp only [moveChunks, moveSteps, inOrder]
      cases staged entry.index with
      | none => rfl
      | some data => simp only [ih]

theorem libraryInit_eq_inOrder (root : PathBuf) (descriptor : EtleDescriptor)
    (fileKey : SymmetricKey) :
    libraryInit root descriptor fileKey .seeding none =
      (do
        inOrder (initSteps { root, shareId := descriptor.shareId } descriptor fileKey)
        return { root, shareId := descriptor.shareId }) := by
  simp [libraryInit, initSteps, inOrder, -bind_pure_comp]

/-- Storing a share is taking its writes in order. -/
theorem storeSeeded_eq_inOrder (chunkMetas : List ChunkMeta) (staged : UInt32 → Option Bytes) :
    storeSeeded prims input fileKey chunkSize libraryRoot chunkMetas staged =
      (do
        inOrder (storeSteps prims input fileKey chunkSize libraryRoot chunkMetas staged)
        return seedDescriptor prims input chunkSize chunkMetas) := by
  have written : zoom id (fun disk _ => disk) NetworkError.file
      (libraryInit libraryRoot (seedDescriptor prims input chunkSize chunkMetas) fileKey
        .seeding none) =
      (do
        inOrder ((initSteps (seedPaths prims input chunkSize libraryRoot chunkMetas)
          (seedDescriptor prims input chunkSize chunkMetas) fileKey).map
            (zoom id (fun disk _ => disk) NetworkError.file))
        return seedPaths prims input chunkSize libraryRoot chunkMetas) := by
    rw [libraryInit_eq_inOrder, zoom_bind, zoom_inOrder]
    rfl
  have unfolded : storeSeeded prims input fileKey chunkSize libraryRoot chunkMetas staged =
      (do
        let paths ← zoom id (fun disk _ => disk) NetworkError.file
          (libraryInit libraryRoot (seedDescriptor prims input chunkSize chunkMetas) fileKey
            .seeding none)
        moveChunks paths staged chunkMetas
        return seedDescriptor prims input chunkSize chunkMetas) := rfl
  rw [unfolded, written, storeSteps, inOrder_append]
  simp [moveChunks_eq_inOrder, -bind_pure_comp]

/-- The library that seeding ends with, successful or not, is one it can be stopped in. -/
theorem final_mem_seedStops {schedule : SeedSchedule} {disk : Disk}
    {result : Result NetworkError Disk EtleDescriptor}
    (added : addStreaming prims input fileKey chunkSize libraryRoot schedule disk =
      some result) :
    result.final ∈ seedStops prims input fileKey chunkSize libraryRoot schedule disk := by
  unfold addStreaming at added
  unfold seedStops
  by_cases empty : chunkSize = 0
  · obtain rfl : _ = result := by simpa [empty] using added
    simp [empty]
  · rw [if_neg empty] at added ⊢
    dsimp only at added ⊢
    split at added
    · rename_i run
      obtain rfl := Option.some.inj added
      simp [run]
    · rename_i chunkMetas _ _ _ _ staged run
      obtain rfl := Option.some.inj added
      have stopped := final_mem_stops
        (storeSteps prims input fileKey chunkSize libraryRoot chunkMetas staged) disk
      simp only [run]
      rw [storeSeeded_eq_inOrder, run_bind]
      cases outcome : (inOrder
        (storeSteps prims input fileKey chunkSize libraryRoot chunkMetas staged)).run disk <;>
        simpa [outcome] using stopped
    · cases added

/-- A seeding that is stopped has left the library as it was, or is among its writes. -/
theorem mem_seedStops {schedule : SeedSchedule} {disk left : Disk}
    (stopped : left ∈ seedStops prims input fileKey chunkSize libraryRoot schedule disk) :
    left = disk ∨ ∃ chunkMetas staged, chunkSize ≠ 0 ∧
      Staged prims input fileKey schedule chunkMetas staged ∧
      left ∈ stops (storeSteps prims input fileKey chunkSize libraryRoot chunkMetas staged)
        disk := by
  unfold seedStops at stopped
  by_cases empty : chunkSize = 0
  · exact .inl (by simpa [empty] using stopped)
  · rw [if_neg empty] at stopped
    dsimp only at stopped
    split at stopped
    · rename_i run
      exact .inr ⟨_, _, empty, ⟨_, run, rfl, rfl⟩, stopped⟩
    · exact .inl (by simpa using stopped)

/-- A seeding whose chunks are staged can be stopped at each of its writes. -/
theorem seedStops_of_staged {schedule : SeedSchedule} {chunkMetas : List ChunkMeta}
    {staged : UInt32 → Option Bytes} (positive : chunkSize ≠ 0)
    (encrypted : Staged prims input fileKey schedule chunkMetas staged) (disk : Disk) :
    seedStops prims input fileKey chunkSize libraryRoot schedule disk =
      stops (storeSteps prims input fileKey chunkSize libraryRoot chunkMetas staged) disk := by
  obtain ⟨⟨reader, plain, workers, queued, writer, chunks⟩, run, returned, rfl⟩ := encrypted
  obtain rfl : reader = .returned (.ok chunkMetas) := returned
  rw [seedStops, if_neg positive]
  dsimp only
  rw [run]

/-- Once its chunks are staged, nothing but a stop keeps a file from being added. -/
theorem addStreaming_of_staged {schedule : SeedSchedule} {chunkMetas : List ChunkMeta}
    {staged : UInt32 → Option Bytes} (positive : chunkSize ≠ 0)
    (encrypted : Staged prims input fileKey schedule chunkMetas staged) (disk : Disk) :
    ∃ after, addStreaming prims input fileKey chunkSize libraryRoot schedule disk =
      some (.ok (seedDescriptor prims input chunkSize chunkMetas) after) := by
  obtain ⟨final, run, returned, rfl⟩ := encrypted
  obtain ⟨length, describes⟩ :=
    returned_describes_reads (defaultSeedWorkerCount_pos _) ⟨_, run⟩ returned
  have increasing := indices_increasing_of_returned ⟨_, run⟩ returned
  have ready : ∀ entry ∈ chunkMetas, (final.staged entry.index).isSome := by
    intro entry member
    obtain ⟨position, found⟩ := List.mem_iff_getElem?.mp member
    obtain ⟨-, -, -, ciphertext, -, -, held⟩ := describes position entry found
    simp [held]
  obtain ⟨descriptor, after, stored⟩ := @run_storeSeeded prims input fileKey chunkSize
    libraryRoot chunkMetas final.staged (increasing.imp UInt32.ne_of_lt) ready disk
  obtain rfl := (storeSeeded_ok stored).1
  exact ⟨after,
    (addStreaming_of_returned positive run returned disk).trans (congrArg some stored)⟩

theorem length_of_staged {schedule : SeedSchedule} {chunkMetas : List ChunkMeta}
    {staged : UInt32 → Option Bytes}
    (encrypted : Staged prims input fileKey schedule chunkMetas staged) :
    chunkMetas.length = input.script.reads.length := by
  obtain ⟨final, run, returned, -⟩ := encrypted
  exact (returned_describes_reads (defaultSeedWorkerCount_pos _) ⟨_, run⟩ returned).1

/-- The writes that initialise a share leave its records over the old chunk files. -/
theorem run_initSteps (root : PathBuf) (descriptor : EtleDescriptor) (fileKey : SymmetricKey)
    (disk : Disk) :
    (inOrder ((initSteps { root, shareId := descriptor.shareId } descriptor fileKey).map
      (zoom id (fun disk _ => disk) NetworkError.file))).run disk =
        .ok () (Function.update disk { root, shareId := descriptor.shareId }
          (initialisedDir descriptor fileKey .seeding none
            (disk { root, shareId := descriptor.shareId }))) := by
  have written := run_libraryInit root descriptor fileKey .seeding none disk
  rw [libraryInit_eq_inOrder, run_bind_eq_ok] at written
  obtain ⟨_, _, taken, returned⟩ := written
  rw [← zoom_inOrder]
  refine run_zoom_eq_ok.mpr ⟨_, taken, ?_⟩
  simpa using returned.symm

/-- Once the records are written and the place of the first chunk is cleared, a chunk is listed
that is not there. -/
theorem exists_stop_not_progressBacked (entry : ChunkMeta) (rest : List ChunkMeta)
    (staged : UInt32 → Option Bytes) (disk : Disk) :
    ∃ left ∈ stops (storeSteps prims input fileKey chunkSize libraryRoot (entry :: rest) staged)
        disk,
      ¬ProgressBacked prims left
        (seedPaths prims input chunkSize libraryRoot (entry :: rest)) := by
  obtain ⟨left, taken, described, listing, cleared⟩ : ∃ left,
      (inOrder ((initSteps (seedPaths prims input chunkSize libraryRoot (entry :: rest))
        (seedDescriptor prims input chunkSize (entry :: rest)) fileKey).map
          (zoom id (fun disk _ => disk) NetworkError.file) ++
        [zoom id (fun disk _ => disk) NetworkError.file
          (removeFile (seedPaths prims input chunkSize libraryRoot (entry :: rest))
            (.chunk entry.index))])).run disk = .ok () left ∧
      (left (seedPaths prims input chunkSize libraryRoot (entry :: rest))).descriptor =
        .value (seedDescriptor prims input chunkSize (entry :: rest)) ∧
      (left (seedPaths prims input chunkSize libraryRoot (entry :: rest))).progress =
        .value (initialProgress (seedDescriptor prims input chunkSize (entry :: rest)) .seeding) ∧
      (left (seedPaths prims input chunkSize libraryRoot (entry :: rest))).chunks
        (.chunk entry.index) = none := by
    rw [inOrder_append]
    refine ⟨_, run_bind_eq_ok.mpr ⟨_, _, run_initSteps _ _ _ _, rfl⟩, ?_, ?_, ?_⟩ <;>
      simp [seedPaths, initialisedDir]
  refine ⟨left, ?_, ?_⟩
  · have stopped := mem_stops_append taken
      (moveSteps (seedPaths prims input chunkSize libraryRoot (entry :: rest)) staged
        (entry :: rest)).tail
    rw [List.append_assoc] at stopped
    exact stopped
  · intro backed
    have listed : entry.index ∈ (initialProgress
        (seedDescriptor prims input chunkSize (entry :: rest)) .seeding).completedChunks :=
      mem_normalizeChunkList.mpr (by simp [seedDescriptor, seedManifest])
    obtain ⟨other, -, same, verifies⟩ := backed _ _ described listing _ listed
    obtain ⟨data, found, -⟩ := chunkVerifies_iff.mp verifies
    rw [same, cleared] at found
    cases found

/-- The stored progress, if any, lists no chunk. -/
def ListsNothing (paths : LibraryPaths) (disk : Disk) : Prop :=
  ∀ progress, (disk paths).progress = .value progress → progress.completedChunks = []

theorem keeps_listsNothing_changeShare {paths changed : LibraryPaths}
    {change : ShareDir → ShareDir}
    (silent : ∀ dir progress, (change dir).progress = .value progress →
      dir.progress = .value progress ∨ progress.completedChunks = []) :
    Keeps (ListsNothing paths) (changeShare changed change) := by
  intro disk holds progress stored
  rw [run_changeShare, Result.final_ok] at stored
  by_cases same : paths = changed
  · subst same
    rw [Function.update_self] at stored
    exact (silent _ progress stored).elim (holds progress) id
  · rw [Function.update_of_ne same] at stored
    exact holds progress stored

/-- The writes of a share without chunks never list one. -/
theorem keeps_listsNothing_initSteps (paths : LibraryPaths) (root : PathBuf)
    {descriptor : EtleDescriptor} (empty : descriptor.chunks = []) (fileKey : SymmetricKey) :
    ∀ operation ∈ initSteps { root, shareId := descriptor.shareId } descriptor fileKey,
      Keeps (ListsNothing paths) operation := by
  have listing : (initialProgress descriptor .seeding).completedChunks = [] := by
    simp [initialProgress, empty, DownloadProgress.new, normalizeChunkList]
  simp only [initSteps, List.mem_cons, List.not_mem_nil, or_false]
  rintro operation (rfl | rfl | rfl | rfl | rfl)
  · exact keeps_listsNothing_changeShare fun _ _ stored => .inl stored
  · exact (Keeps.liftExcept _ _).bind fun _ =>
      keeps_listsNothing_changeShare fun _ _ stored => .inl stored
  · exact (Keeps.liftExcept _ _).bind fun _ =>
      keeps_listsNothing_changeShare fun _ _ stored => .inl stored
  · refine (Keeps.liftExcept _ _).bind fun _ =>
      keeps_listsNothing_changeShare fun _ progress stored => .inr ?_
    obtain rfl : initialProgress descriptor .seeding = progress := by simpa using stored
    exact listing
  · exact (Keeps.liftExcept _ _).bind fun _ =>
      keeps_listsNothing_changeShare fun _ _ stored => .inl stored

theorem listsNothing_of_absent {paths : LibraryPaths} {disk : Disk}
    (absent : disk paths = ShareDir.absent) : ListsNothing paths disk := by
  intro progress stored
  simp [absent, ShareDir.absent] at stored

theorem ListsNothing.backed {paths : LibraryPaths} {disk : Disk}
    (nothing : ListsNothing paths disk) : ProgressBacked prims disk paths := by
  intro _ progress _ stored index member
  simp [nothing progress stored] at member

/-- A new share is never left with a listed chunk missing exactly when the file has no chunk, or
seeding fails before it writes to the library. -/
theorem seedStops_backed_iff {schedule : SeedSchedule} {disk : Disk}
    (fresh : ∀ descriptor after,
      addStreaming prims input fileKey chunkSize libraryRoot schedule disk =
        some (.ok descriptor after) →
      disk { root := libraryRoot, shareId := descriptor.shareId } = ShareDir.absent) :
    (∀ left ∈ seedStops prims input fileKey chunkSize libraryRoot schedule disk, ∀ paths,
      disk paths = ShareDir.absent → ProgressBacked prims left paths) ↔
      input.script.reads = [] ∨ chunkSize = 0 ∨
        ∀ chunkMetas staged, ¬Staged prims input fileKey schedule chunkMetas staged := by
  constructor
  · intro backed
    rw [or_iff_not_imp_right]
    intro succeeds
    push Not at succeeds
    obtain ⟨positive, chunkMetas, staged, encrypted⟩ := succeeds
    obtain ⟨after, added⟩ := addStreaming_of_staged positive encrypted disk
    have absent := fresh _ after added
    cases chunkMetas with
    | nil => exact List.length_eq_zero_iff.mp (length_of_staged encrypted).symm
    | cons entry rest =>
        obtain ⟨left, stopped, unbacked⟩ := exists_stop_not_progressBacked entry rest staged disk
        rw [← seedStops_of_staged positive encrypted] at stopped
        exact absurd (backed left stopped _ absent) unbacked
  · intro condition left stopped paths absent
    have nothing := listsNothing_of_absent absent
    obtain rfl | ⟨chunkMetas, staged, positive, encrypted, stopped⟩ := mem_seedStops stopped
    · exact nothing.backed
    · obtain unread | zero | never := condition
      · obtain rfl : chunkMetas = [] := by simpa [unread] using length_of_staged encrypted
        refine (holds_of_mem_stops ?_ nothing stopped).backed
        simp only [storeSteps, moveSteps, List.append_nil, List.mem_map]
        rintro _ ⟨operation, member, rfl⟩
        exact Keeps.zoom
          (keeps_listsNothing_initSteps paths libraryRoot rfl fileKey operation member)
          fun _ _ => rfl
      · exact absurd zero positive
      · exact absurd encrypted (never chunkMetas staged)

end

/-- A file without any byte, as seeding sees it. -/
def emptyInput : SeedInput where
  path := ["sample.bin"]
  content := []
  size := 0
  script := { reads := [], failure := none }

/-- A schedule that takes an empty input through a single worker. -/
def emptySchedule : SeedSchedule where
  availableParallelism := some 1
  events := fun workerCount =>
    if staffed : 0 < workerCount then
      [.read, .lock ⟨0, staffed⟩, .disconnected ⟨0, staffed⟩, .finishWriter, .join]
    else
      []

theorem staged_emptyInput (fileKey : SymmetricKey) :
    ∃ staged, Staged transparentPrimitives emptyInput fileKey emptySchedule [] staged :=
  ⟨_, _, rfl, rfl, rfl⟩

theorem staged_oneReadInput (data : Bytes) (fileKey : SymmetricKey) :
    ∃ staged, Staged transparentPrimitives (oneReadInput data) fileKey oneReadSchedule
      [oneReadEntry data] staged := by
  obtain ⟨final, run, returned, -⟩ :=
    run_oneReadSchedule (hashFileId transparentPrimitives data) fileKey data
  exact ⟨final.staged, final, run, returned, rfl⟩

/-- An empty file is seeded, and stopping it never leaves a listed chunk missing. -/
theorem seedStops_backed_empty_file :
    (∃ descriptor after, addStreaming transparentPrimitives emptyInput sampleKey 1 ["library"]
      emptySchedule (fun _ => .absent) = some (.ok descriptor after)) ∧
    ∀ left ∈ seedStops transparentPrimitives emptyInput sampleKey 1 ["library"] emptySchedule
      (fun _ => .absent), ∀ paths, ProgressBacked transparentPrimitives left paths := by
  constructor
  · obtain ⟨staged, encrypted⟩ := staged_emptyInput sampleKey
    obtain ⟨after, added⟩ := addStreaming_of_staged (show 1 ≠ 0 by decide) encrypted _
    exact ⟨_, after, added⟩
  · intro left stopped paths
    exact (seedStops_backed_iff fun _ _ _ => rfl).mpr (.inl rfl) left stopped paths rfl

/-- The seeding of one byte can be stopped with its chunk listed and missing. -/
theorem seedStops_unbacked_one_byte :
    ∃ left ∈ seedStops transparentPrimitives (oneReadInput [7]) sampleKey 1 ["library"]
        oneReadSchedule (fun _ => .absent),
      ∃ paths, ¬ProgressBacked transparentPrimitives left paths := by
  obtain ⟨staged, encrypted⟩ := staged_oneReadInput [7] sampleKey
  obtain ⟨left, stopped, unbacked⟩ := exists_stop_not_progressBacked (oneReadEntry [7]) []
    staged fun _ => .absent
  refine ⟨left, ?_, _, unbacked⟩
  rw [seedStops_of_staged (by decide) encrypted]
  exact stopped

end Etle
