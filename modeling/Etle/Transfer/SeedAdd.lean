import Etle.Transfer.DownloadState
import Etle.Transfer.SeedContents

/-!
# Adding a file to the library

Seeding hashes the file, encrypts it into a staging directory, describes it and moves the staged
chunks into the share.  The hash, the size and the chunks come from three passes over the path,
between which the file may change.
-/

namespace Etle

/-- A file as seeding sees it: the bytes that are hashed, the size its metadata give, and what the
reads of the pipeline return. -/
structure SeedInput where
  path : PathBuf
  content : Bytes
  size : UInt64
  script : InputScript

/-- The parallelism the system reports and the events of the pipeline. -/
structure SeedSchedule where
  availableParallelism : Option Nat
  events : (workerCount : Nat) → List (SeedEvent workerCount)

/-- The last component of a path, unless it is no name of a file. -/
def manifestFileName (path : PathBuf) : String :=
  match path.getLast? with
  | none | some "" | some "/" | some "." | some ".." => "unnamed"
  | some name => name

/-- Move staged chunks into the share, each replacing the file that is there. -/
def moveChunks (paths : LibraryPaths) (staged : UInt32 → Option Bytes) :
    List ChunkMeta → EStateM NetworkError Disk Unit
  | [] => return
  | entry :: rest => do
      EStateM.zoom id (fun disk _ => disk) .file (removeFile paths (.chunk entry.index))
      match staged entry.index with
      | none => throw (.io .notFound)
      | some data =>
          EStateM.zoom id (fun disk _ => disk) .file
            (writeChunk paths { index := entry.index, data })
          moveChunks paths (Function.update staged entry.index none) rest

section

variable (prims : Primitives) (input : SeedInput) (fileKey : SymmetricKey) (chunkSize : Nat)
  (libraryRoot : PathBuf)

/-- The manifest of an encrypted file. -/
def seedManifest (chunkMetas : List ChunkMeta) : Manifest where
  fileId := hashFileId prims input.content
  fileName := manifestFileName input.path
  fileSize := input.size
  chunkSize := UInt64.ofNat chunkSize
  chunks := chunkMetas

/-- Store an encrypted file as a share. -/
def storeSeeded (chunkMetas : List ChunkMeta) (staged : UInt32 → Option Bytes) :
    EStateM NetworkError Disk EtleDescriptor := do
  let manifest := seedManifest prims input chunkSize chunkMetas
  let descriptor := descriptorFromManifest prims manifest
  let paths ← EStateM.zoom id (fun disk _ => disk) .file
    (libraryInit libraryRoot descriptor fileKey .seeding none)
  moveChunks paths staged manifest.chunks
  return descriptor

/-- Encrypt a file under a file key and add it to the library. -/
def addStreaming (schedule : SeedSchedule) (disk : Disk) :
    Option (EStateM.Result NetworkError Disk EtleDescriptor) :=
  if chunkSize = 0 then
    some (.error (.file (.invalidChunkSize chunkSize)) disk)
  else
    let workerCount := defaultSeedWorkerCount schedule.availableParallelism
    match (encryptFileToStagingParallel prims (hashFileId prims input.content) fileKey
        workerCount).run (.initial input.script workerCount) (schedule.events workerCount) with
    | some { reader := .returned (.error error), .. } => some (.error error disk)
    | some { reader := .returned (.ok chunkMetas), staged, .. } =>
        some ((storeSeeded prims input fileKey chunkSize libraryRoot chunkMetas staged).run disk)
    | _ => none

end

section

variable {prims : Primitives} {input : SeedInput} {fileKey : SymmetricKey} {chunkSize : Nat}
  {libraryRoot : PathBuf}

/-- A share directory with a chunk file. -/
def ShareDir.withChunk (dir : ShareDir) (index : UInt32) (data : Bytes) : ShareDir :=
  { dir with present := true, chunks := Function.update dir.chunks (.chunk index) (some data) }

/-- Moving chunks moves the first one, which must be staged, and then the others. -/
theorem moveChunks_cons_ok {paths : LibraryPaths} {staged : UInt32 → Option Bytes}
    {entry : ChunkMeta} {rest : List ChunkMeta} {before after : Disk} {value : Unit}
    (moved : (moveChunks paths staged (entry :: rest)).run before = .ok value after) :
    ∃ data, staged entry.index = some data ∧
      (moveChunks paths (Function.update staged entry.index none) rest).run
        (Function.update before paths ((before paths).withChunk entry.index data)) =
          .ok value after := by
  unfold moveChunks at moved
  obtain ⟨_, removed, cleared, moved⟩ := EStateM.run_bind_eq_ok.mp moved
  obtain ⟨_, cleared, rfl⟩ := EStateM.run_zoom_eq_ok.mp cleared
  obtain rfl : _ = removed := by simpa [removeFile] using cleared
  split at moved
  · simp at moved
  · rename_i data found
    obtain ⟨_, placed, written, moved⟩ := EStateM.run_bind_eq_ok.mp moved
    obtain ⟨_, written, rfl⟩ := EStateM.run_zoom_eq_ok.mp written
    obtain rfl : _ = placed := by simpa [writeChunk] using written
    exact ⟨data, found, by simpa [ShareDir.withChunk] using moved⟩

/-- Moving chunks leaves the records of the share alone. -/
theorem records_of_moveChunks {paths : LibraryPaths} {staged : UInt32 → Option Bytes}
    {entries : List ChunkMeta} {before after : Disk} {value : Unit}
    (moved : (moveChunks paths staged entries).run before = .ok value after) :
    (after paths).descriptor = (before paths).descriptor ∧
      (after paths).secret = (before paths).secret := by
  induction entries generalizing staged before with
  | nil =>
      obtain rfl : before = after := by simpa [moveChunks] using moved
      exact ⟨rfl, rfl⟩
  | cons entry rest ih =>
      obtain ⟨data, -, later⟩ := moveChunks_cons_ok moved
      simpa [ShareDir.withChunk] using ih later

/-- Staged chunks with distinct indices are all moved. -/
theorem run_moveChunks {paths : LibraryPaths} {staged : UInt32 → Option Bytes}
    {entries : List ChunkMeta} (distinct : (entries.map ChunkMeta.index).Nodup)
    (ready : ∀ entry ∈ entries, (staged entry.index).isSome) (before : Disk) :
    ∃ after, (moveChunks paths staged entries).run before = .ok () after := by
  induction entries generalizing staged before with
  | nil => exact ⟨before, rfl⟩
  | cons entry rest ih =>
      rw [List.map_cons, List.nodup_cons] at distinct
      obtain ⟨data, found⟩ := Option.isSome_iff_exists.mp (ready entry List.mem_cons_self)
      have others : ∀ other ∈ rest,
          (Function.update staged entry.index none other.index).isSome := by
        intro other member
        have apart : other.index ≠ entry.index := fun same =>
          distinct.1 (same ▸ List.mem_map_of_mem member)
        rw [Function.update_of_ne apart]
        exact ready other (List.mem_cons_of_mem _ member)
      obtain ⟨after, moved⟩ := ih distinct.2 others
        (((writeChunk paths { index := entry.index, data }).run
          ((removeFile paths (.chunk entry.index)).run before).final).final)
      refine ⟨after, EStateM.run_bind_eq_ok.mpr
        ⟨(), _, EStateM.run_zoom_eq_ok.mpr ⟨_, rfl, rfl⟩, ?_⟩⟩
      simp only [found]
      exact EStateM.run_bind_eq_ok.mpr ⟨(), _, EStateM.run_zoom_eq_ok.mpr ⟨_, rfl, rfl⟩, moved⟩

/-- Once the pipeline has returned metadata, adding a file is storing its chunks. -/
theorem addStreaming_of_returned {schedule : SeedSchedule} (positive : chunkSize ≠ 0)
    {final : SeedPipeline (defaultSeedWorkerCount schedule.availableParallelism)}
    {chunkMetas : List ChunkMeta}
    (run : (encryptFileToStagingParallel prims (hashFileId prims input.content) fileKey
      (defaultSeedWorkerCount schedule.availableParallelism)).run (.initial input.script _)
        (schedule.events _) = some final)
    (returned : final.reader = .returned (.ok chunkMetas)) (disk : Disk) :
    addStreaming prims input fileKey chunkSize libraryRoot schedule disk =
      some ((storeSeeded prims input fileKey chunkSize libraryRoot chunkMetas
        final.staged).run disk) := by
  obtain ⟨reader, plain, workers, encrypted, writer, staged⟩ := final
  obtain rfl : reader = .returned (.ok chunkMetas) := returned
  rw [addStreaming, if_neg positive]
  dsimp only
  rw [run]

/-- Adding a file succeeds when the pipeline returns metadata and their chunks are stored. -/
theorem addStreaming_eq_ok {schedule : SeedSchedule} {before after : Disk}
    {descriptor : EtleDescriptor}
    (added : addStreaming prims input fileKey chunkSize libraryRoot schedule before =
      some (.ok descriptor after)) :
    ∃ (final : SeedPipeline (defaultSeedWorkerCount schedule.availableParallelism))
      (chunkMetas : List ChunkMeta),
      (encryptFileToStagingParallel prims (hashFileId prims input.content) fileKey
        (defaultSeedWorkerCount schedule.availableParallelism)).Reaches
          (.initial input.script _) final ∧
      final.reader = .returned (.ok chunkMetas) ∧
      (storeSeeded prims input fileKey chunkSize libraryRoot chunkMetas final.staged).run before =
        .ok descriptor after := by
  unfold addStreaming at added
  split at added
  · simp at added
  · dsimp only at added
    split at added
    · simp at added
    · rename_i run
      exact ⟨_, _, ⟨_, run⟩, rfl, Option.some.inj added⟩
    · cases added

/-- What storing an encrypted file has left in the library: its descriptor and the file key. -/
theorem storeSeeded_ok {chunkMetas : List ChunkMeta} {staged : UInt32 → Option Bytes}
    {before after : Disk} {descriptor : EtleDescriptor}
    (stored : (storeSeeded prims input fileKey chunkSize libraryRoot chunkMetas staged).run before =
      .ok descriptor after) :
    descriptor = descriptorFromManifest prims (seedManifest prims input chunkSize chunkMetas) ∧
      (after { root := libraryRoot, shareId := descriptor.shareId }).descriptor =
        .value descriptor ∧
      (after { root := libraryRoot, shareId := descriptor.shareId }).secret =
        .value { shareId := descriptor.shareId, fileKey } := by
  simp only [storeSeeded, EStateM.run_bind_eq_ok, EStateM.run_zoom_eq_ok, run_libraryInit,
    EStateM.run_pure, EStateM.Result.ok.injEq] at stored
  obtain ⟨_, _, ⟨_, ⟨rfl, rfl⟩, rfl⟩, _, _, moved, rfl, rfl⟩ := stored
  obtain ⟨described, keyed⟩ := records_of_moveChunks moved
  exact ⟨rfl, by simpa [initialisedDir] using described, by simpa [initialisedDir] using keyed⟩

/-- Chunks that are all staged under distinct indices are stored as a share. -/
theorem run_storeSeeded {chunkMetas : List ChunkMeta} {staged : UInt32 → Option Bytes}
    (distinct : (chunkMetas.map ChunkMeta.index).Nodup)
    (ready : ∀ entry ∈ chunkMetas, (staged entry.index).isSome) (before : Disk) :
    ∃ descriptor after,
      (storeSeeded prims input fileKey chunkSize libraryRoot chunkMetas staged).run before =
        .ok descriptor after := by
  obtain ⟨after, moved⟩ := run_moveChunks distinct ready _
  exact ⟨_, after, EStateM.run_bind_eq_ok.mpr ⟨_, _, EStateM.run_zoom_eq_ok.mpr
    ⟨_, run_libraryInit _ _ _ _ _ _, rfl⟩, EStateM.run_bind_eq_ok.mpr ⟨(), _, moved, rfl⟩⟩⟩

theorem defaultSeedWorkerCount_pos (availableParallelism : Option Nat) :
    0 < defaultSeedWorkerCount availableParallelism := by
  unfold defaultSeedWorkerCount
  omega

/-- What adding a file has left in the library: the descriptor of a manifest with the hash of the
file and increasing indices, and the file key. -/
theorem addStreaming_ok {schedule : SeedSchedule} {before after : Disk}
    {descriptor : EtleDescriptor}
    (added : addStreaming prims input fileKey chunkSize libraryRoot schedule before =
      some (.ok descriptor after)) :
    ∃ manifest, descriptor = descriptorFromManifest prims manifest ∧
      manifest.fileId = hashFileId prims input.content ∧
      manifest.indices.Pairwise (· < ·) ∧
      (after { root := libraryRoot, shareId := descriptor.shareId }).descriptor =
        .value descriptor ∧
      (after { root := libraryRoot, shareId := descriptor.shareId }).secret =
        .value { shareId := descriptor.shareId, fileKey } := by
  obtain ⟨final, chunkMetas, reach, returned, stored⟩ := addStreaming_eq_ok added
  obtain ⟨described, descriptor_stored, secret_stored⟩ := storeSeeded_ok stored
  exact ⟨_, described, rfl, indices_increasing_of_returned reach returned, descriptor_stored,
    secret_stored⟩

end

/-! ## Adding a file that is read at once -/

/-- A schedule that takes an input of one read through a single worker. -/
def oneReadSchedule : SeedSchedule where
  availableParallelism := some 1
  events := fun workerCount =>
    if staffed : 0 < workerCount then
      [.read, .sendPlain, .read, .lock ⟨0, staffed⟩, .receive ⟨0, staffed⟩,
        .send ⟨0, staffed⟩ ⟨Vector.replicate 24 0⟩, .write none, .lock ⟨0, staffed⟩,
        .disconnected ⟨0, staffed⟩, .finishWriter, .join]
    else
      []

/-- A file that is read at once. -/
def oneReadInput (data : Bytes) : SeedInput where
  path := ["sample.bin"]
  content := data
  size := UInt64.ofNat data.length
  script := { reads := [data], failure := none }

/-- The entry of such a file under the transparent primitives. -/
def oneReadEntry (data : Bytes) : ChunkMeta where
  index := 0
  plainSize := UInt64.ofNat data.length
  encryptedSize := UInt64.ofNat (data ++ List.replicate aeadTagLength 0).length
  nonce := ⟨Vector.replicate 24 0⟩
  blake3Hash := hashChunk transparentPrimitives (data ++ List.replicate aeadTagLength 0)

theorem run_oneReadSchedule (fileId : FileId) (fileKey : SymmetricKey) (data : Bytes) :
    ∃ final, (encryptFileToStagingParallel transparentPrimitives fileId fileKey
        (defaultSeedWorkerCount oneReadSchedule.availableParallelism)).run
          (.initial (oneReadInput data).script _) (oneReadSchedule.events _) = some final ∧
      final.reader = .returned (.ok [oneReadEntry data]) ∧
      final.staged 0 = some (data ++ List.replicate aeadTagLength 0) :=
  ⟨_, rfl, rfl, rfl⟩

/-- A file that is read at once is added under any positive chunk size. -/
theorem addStreaming_of_oneRead (input : SeedInput) (data : Bytes)
    (once : input.script = (oneReadInput data).script) (fileKey : SymmetricKey) {chunkSize : Nat}
    (positive : chunkSize ≠ 0) (libraryRoot : PathBuf) (disk : Disk) :
    ∃ descriptor after, addStreaming transparentPrimitives input fileKey chunkSize libraryRoot
      oneReadSchedule disk = some (.ok descriptor after) := by
  obtain ⟨final, run, returned, stored⟩ :=
    run_oneReadSchedule (hashFileId transparentPrimitives input.content) fileKey data
  rw [← once] at run
  obtain ⟨descriptor, after, added⟩ := @run_storeSeeded transparentPrimitives input
    fileKey chunkSize libraryRoot [oneReadEntry data] final.staged (by simp)
    (by simp [oneReadEntry, stored]) disk
  exact ⟨descriptor, after,
    (@addStreaming_of_returned _ input _ _ _ _ positive _ _ run returned disk).trans
      (congrArg some added)⟩

end Etle
