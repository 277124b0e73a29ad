import Etle.Foundations.Outcome
import Etle.State.Model

/-!
# The library on disk

A share directory holds four records and a directory of chunk files.  A record is kept as the value
it decodes to, or as bytes that do not decode.  Reads fail where the file is missing, does not
decode or names another share; writes go to one file at a time and succeed.
-/

namespace Etle

/-- Where a share lives: a library root and the share. -/
structure LibraryPaths where
  root : PathBuf
  shareId : ShareId
  deriving DecidableEq

/-- What reading a record file gives. -/
inductive Stored (α : Type) where
  | missing
  | undecodable
  | value (content : α)

/-- The file exists. -/
def Stored.isFile {α : Type} : Stored α → Bool
  | .missing => false
  | .undecodable => true
  | .value _ => true

/-- The names in a chunk directory: final chunk files and files still being received. -/
inductive ChunkFile where
  | chunk (index : UInt32)
  | part (index : UInt32) (suffix : Nat)
  deriving DecidableEq

/-- The content of one share directory. -/
structure ShareDir where
  present : Bool
  descriptor : Stored EtleDescriptor
  secret : Stored EtleSecret
  progress : Stored DownloadProgress
  state : Stored ShareState
  chunks : ChunkFile → Option Bytes

/-- A directory that does not exist. -/
def ShareDir.absent : ShareDir where
  present := false
  descriptor := .missing
  secret := .missing
  progress := .missing
  state := .missing
  chunks := fun _ => none

/-- Every library the process can see. -/
abbrev Disk := LibraryPaths → ShareDir

/-- An encrypted chunk in memory. -/
structure EncryptedChunk where
  index : UInt32
  data : Bytes
  deriving DecidableEq

/-- A computation on the disk. -/
abbrev OnDisk := EStateM FileError Disk

/-- Change one share directory. -/
def changeShare (paths : LibraryPaths) (change : ShareDir → ShareDir) : OnDisk Unit :=
  modify fun disk => Function.update disk paths (change (disk paths))

/-- A record must belong to the share whose directory it is in. -/
def ensureShareId (expected actual : ShareId) : Except FileError Unit :=
  if expected = actual then .ok () else .error (.shareIdMismatch expected actual)

/-- Decode the content of a record file. -/
def readStored {α : Type} : Stored α → Except FileError α
  | .missing => .error (.io .notFound)
  | .undecodable => .error .decode
  | .value content => .ok content

/-! ## Records -/

/-- Create the chunk and output directories of a share. -/
def createShareDirs (paths : LibraryPaths) : OnDisk Unit :=
  changeShare paths fun dir => { dir with present := true }

/-- Store the descriptor of a share. -/
def writeDescriptor (paths : LibraryPaths) (descriptor : EtleDescriptor) : OnDisk Unit := do
  EStateM.liftExcept id (ensureShareId paths.shareId descriptor.shareId)
  changeShare paths fun dir => { dir with present := true, descriptor := .value descriptor }

/-- Store the file key of a share. -/
def writeSecret (paths : LibraryPaths) (secret : EtleSecret) : OnDisk Unit := do
  EStateM.liftExcept id (ensureShareId paths.shareId secret.shareId)
  changeShare paths fun dir => { dir with present := true, secret := .value secret }

/-- Store the progress of a share. -/
def writeProgress (paths : LibraryPaths) (progress : DownloadProgress) : OnDisk Unit := do
  EStateM.liftExcept id (ensureShareId paths.shareId progress.shareId)
  changeShare paths fun dir => { dir with present := true, progress := .value progress }

/-- Store the operational state of a share. -/
def writeState (paths : LibraryPaths) (state : ShareState) : OnDisk Unit := do
  EStateM.liftExcept id (ensureShareId paths.shareId state.shareId)
  changeShare paths fun dir => { dir with present := true, state := .value state }

/-- Read a descriptor that belongs to its share and matches its own identifier. -/
def readDescriptor (prims : Primitives) (disk : Disk) (paths : LibraryPaths) :
    Except FileError EtleDescriptor := do
  let descriptor ← readStored (disk paths).descriptor
  ensureShareId paths.shareId descriptor.shareId
  if descriptor.verifyShareId prims then
    return descriptor
  else
    throw (.shareIdMismatch (descriptor.recomputeShareId prims) descriptor.shareId)

/-- Read the file key of a share. -/
def readSecret (disk : Disk) (paths : LibraryPaths) : Except FileError EtleSecret := do
  let secret ← readStored (disk paths).secret
  ensureShareId paths.shareId secret.shareId
  return secret

/-- Read the progress of a share. -/
def readProgress (disk : Disk) (paths : LibraryPaths) : Except FileError DownloadProgress := do
  let progress ← readStored (disk paths).progress
  ensureShareId paths.shareId progress.shareId
  return progress

/-- Read the operational state of a share. -/
def readState (disk : Disk) (paths : LibraryPaths) : Except FileError ShareState := do
  let state ← readStored (disk paths).state
  ensureShareId paths.shareId state.shareId
  return state

/-! ## Chunks -/

/-- Write a chunk to its final place. -/
def writeChunk (paths : LibraryPaths) (chunk : EncryptedChunk) : OnDisk Unit :=
  changeShare paths fun dir =>
    { dir with
      present := true
      chunks := Function.update dir.chunks (.chunk chunk.index) (some chunk.data) }

/-- Read a chunk that must have the given size. -/
def readChunk (disk : Disk) (paths : LibraryPaths) (index : UInt32) (expectedSize : UInt64) :
    Except FileError EncryptedChunk :=
  match (disk paths).chunks (.chunk index) with
  | none => .error (.io .notFound)
  | some data =>
      if UInt64.ofNat data.length = expectedSize then
        .ok { index, data }
      else
        .error (.chunkSizeMismatch index expectedSize (UInt64.ofNat data.length))

/-- The chunk file exists. -/
def hasChunk (disk : Disk) (paths : LibraryPaths) (index : UInt32) : Bool :=
  ((disk paths).chunks (.chunk index)).isSome

/-- The chunk file of an entry exists, has its size and has its hash. -/
def chunkVerifies (prims : Primitives) (disk : Disk) (paths : LibraryPaths) (entry : ChunkMeta) :
    Bool :=
  match readChunk disk paths entry.index entry.encryptedSize with
  | .ok chunk => hashChunk prims chunk.data == entry.blake3Hash
  | .error _ => false

/-- The chunks of a descriptor whose files are present, complete and intact. -/
def availableChunkIndexes (prims : Primitives) (disk : Disk) (paths : LibraryPaths)
    (descriptor : EtleDescriptor) : List UInt32 :=
  (descriptor.chunks.filter fun entry =>
    hasChunk disk paths entry.index && chunkVerifies prims disk paths entry).map ChunkMeta.index

/-! ## Initialising a share -/

/-- The progress a share starts with in a mode. -/
def initialProgress (descriptor : EtleDescriptor) : ShareMode → DownloadProgress
  | .seeding | .completed =>
      DownloadProgress.new descriptor.shareId (descriptor.chunks.map ChunkMeta.index)
  | .downloading | .paused => DownloadProgress.empty descriptor.shareId

/-- Write all four records of a share, replacing those that are there. -/
def libraryInit (root : PathBuf) (descriptor : EtleDescriptor) (fileKey : SymmetricKey)
    (mode : ShareMode) (outputDir : Option PathBuf) : OnDisk LibraryPaths := do
  let paths : LibraryPaths := { root, shareId := descriptor.shareId }
  createShareDirs paths
  writeDescriptor paths descriptor
  writeSecret paths { shareId := descriptor.shareId, fileKey }
  writeProgress paths (initialProgress descriptor mode)
  writeState paths (ShareState.fromProgress mode outputDir (initialProgress descriptor mode))
  return paths

/-! ## Facts about reads and writes -/

@[simp]
theorem ensureShareId_self (shareId : ShareId) : ensureShareId shareId shareId = .ok () := by
  simp [ensureShareId]

section ReadBack

variable {prims : Primitives} {disk : Disk} {paths : LibraryPaths}

theorem readDescriptor_of_value {descriptor : EtleDescriptor}
    (stored : (disk paths).descriptor = .value descriptor)
    (owned : descriptor.shareId = paths.shareId) (verified : descriptor.verifyShareId prims) :
    readDescriptor prims disk paths = .ok descriptor := by
  simp [readDescriptor, stored, readStored, owned, verified, bind, Except.bind, pure, Except.pure]

/-- A descriptor is read under its own identifier, and only if that verifies. -/
theorem readDescriptor_eq_ok {descriptor : EtleDescriptor}
    (read : readDescriptor prims disk paths = .ok descriptor) :
    (disk paths).descriptor = .value descriptor ∧ descriptor.shareId = paths.shareId ∧
      descriptor.verifyShareId prims = true := by
  unfold readDescriptor at read
  cases stored : (disk paths).descriptor with
  | missing => simp [stored, readStored, bind, Except.bind] at read
  | undecodable => simp [stored, readStored, bind, Except.bind] at read
  | value content =>
      by_cases owned : paths.shareId = content.shareId
      · by_cases verified : content.verifyShareId prims = true
        · obtain rfl : content = descriptor := by
            simpa [stored, readStored, ensureShareId, owned, verified, bind, Except.bind, pure,
              Except.pure] using read
          exact ⟨rfl, owned.symm, verified⟩
        · simp [stored, readStored, ensureShareId, owned, verified, bind, Except.bind] at read
      · simp [stored, readStored, ensureShareId, owned, bind, Except.bind] at read

theorem readSecret_of_value {secret : EtleSecret} (stored : (disk paths).secret = .value secret)
    (owned : secret.shareId = paths.shareId) : readSecret disk paths = .ok secret := by
  simp [readSecret, stored, readStored, owned, bind, Except.bind, pure, Except.pure]

theorem readProgress_of_value {progress : DownloadProgress}
    (stored : (disk paths).progress = .value progress)
    (owned : progress.shareId = paths.shareId) : readProgress disk paths = .ok progress := by
  simp [readProgress, stored, readStored, owned, bind, Except.bind, pure, Except.pure]

theorem readState_of_value {state : ShareState} (stored : (disk paths).state = .value state)
    (owned : state.shareId = paths.shareId) : readState disk paths = .ok state := by
  simp [readState, stored, readStored, owned, bind, Except.bind, pure, Except.pure]

end ReadBack

@[simp]
theorem run_changeShare (paths : LibraryPaths) (change : ShareDir → ShareDir) (disk : Disk) :
    (changeShare paths change).run disk =
      .ok () (Function.update disk paths (change (disk paths))) := rfl

@[simp]
theorem initialProgress_shareId (descriptor : EtleDescriptor) (mode : ShareMode) :
    (initialProgress descriptor mode).shareId = descriptor.shareId := by
  cases mode <;> rfl

/-- A verified chunk is the stored file, with the size and the hash of its entry. -/
theorem chunkVerifies_iff {prims : Primitives} {disk : Disk} {paths : LibraryPaths}
    {entry : ChunkMeta} :
    chunkVerifies prims disk paths entry = true ↔
      ∃ data, (disk paths).chunks (.chunk entry.index) = some data ∧
        UInt64.ofNat data.length = entry.encryptedSize ∧
          hashChunk prims data = entry.blake3Hash := by
  unfold chunkVerifies readChunk
  cases (disk paths).chunks (.chunk entry.index) with
  | none => simp
  | some data =>
      by_cases size : UInt64.ofNat data.length = entry.encryptedSize <;> simp [size]

/-- The available indices are those of the entries whose chunk verifies. -/
theorem availableChunkIndexes_eq (prims : Primitives) (disk : Disk) (paths : LibraryPaths)
    (descriptor : EtleDescriptor) :
    availableChunkIndexes prims disk paths descriptor =
      (descriptor.chunks.filter (chunkVerifies prims disk paths)).map ChunkMeta.index := by
  unfold availableChunkIndexes
  congr 1
  apply List.filter_congr
  intro entry _
  cases verifies : chunkVerifies prims disk paths entry with
  | false => simp
  | true =>
      obtain ⟨data, stored, -⟩ := chunkVerifies_iff.mp verifies
      simp [hasChunk, stored]

/-- The directory that initialisation leaves behind: new records over the old chunk files. -/
def initialisedDir (descriptor : EtleDescriptor) (fileKey : SymmetricKey) (mode : ShareMode)
    (outputDir : Option PathBuf) (before : ShareDir) : ShareDir where
  present := true
  descriptor := .value descriptor
  secret := .value { shareId := descriptor.shareId, fileKey }
  progress := .value (initialProgress descriptor mode)
  state := .value (ShareState.fromProgress mode outputDir (initialProgress descriptor mode))
  chunks := before.chunks

/-- Initialisation replaces the records of its share and touches nothing else. -/
theorem run_libraryInit (root : PathBuf) (descriptor : EtleDescriptor) (fileKey : SymmetricKey)
    (mode : ShareMode) (outputDir : Option PathBuf) (disk : Disk) :
    (libraryInit root descriptor fileKey mode outputDir).run disk =
      .ok { root, shareId := descriptor.shareId }
        (Function.update disk { root, shareId := descriptor.shareId }
          (initialisedDir descriptor fileKey mode outputDir
            (disk { root, shareId := descriptor.shareId }))) := by
  simp [libraryInit, createShareDirs, writeDescriptor, writeSecret, writeProgress, writeState,
    initialisedDir, -bind_pure_comp]

end Etle
