import Etle.Foundations.Machine
import Etle.State.Library

/-!
# Reconstruction of the output file

The chunks of a manifest are decrypted from the library and written in manifest order.  The
sequential writer is a fold.  The parallel one is a machine: workers pop entries from a shared
queue and send results into a bounded channel; the consumer reorders them through a map of pending
chunks and a cursor into the expected order.
-/

namespace Etle

open Std (TreeMap)

/-- A decrypted chunk on its way to the output. -/
structure DecryptedChunk where
  index : UInt32
  data : Bytes
  deriving DecidableEq

/-- The outcome a decryption worker sends. -/
abbrev DecryptResult := Except NetworkError DecryptedChunk

/-- Read, verify and decrypt one chunk of the library. -/
def decryptLibraryChunk (prims : Primitives) (disk : Disk) (paths : LibraryPaths)
    (fileId : FileId) (fileKey : SymmetricKey) (entry : ChunkMeta) : DecryptResult :=
  match readChunk disk paths entry.index entry.encryptedSize with
  | .error failure => .error (.file failure)
  | .ok chunk =>
      if hashChunk prims chunk.data ≠ entry.blake3Hash then
        .error (.file (.chunkHashMismatch entry.index))
      else
        match decryptChunk prims fileKey entry.nonce chunk.data
            (buildChunkAad fileId entry.index entry.plainSize) with
        | .error failure => .error (.crypto failure)
        | .ok data =>
            if UInt64.ofNat data.length ≠ entry.plainSize then
              .error (.file
                (.chunkSizeMismatch entry.index entry.plainSize (UInt64.ofNat data.length)))
            else
              .ok { index := entry.index, data }

/-- A chunk decrypts exactly when its file has the size and the hash of its entry, the AEAD accepts
it, and the plaintext has the promised size. -/
theorem decryptLibraryChunk_eq_ok {prims : Primitives} {disk : Disk} {paths : LibraryPaths}
    {fileId : FileId} {fileKey : SymmetricKey} {entry : ChunkMeta} {chunk : DecryptedChunk} :
    decryptLibraryChunk prims disk paths fileId fileKey entry = .ok chunk ↔
      ∃ cipher, (disk paths).chunks (.chunk entry.index) = some cipher ∧
        UInt64.ofNat cipher.length = entry.encryptedSize ∧
        hashChunk prims cipher = entry.blake3Hash ∧
        decryptChunk prims fileKey entry.nonce cipher
          (buildChunkAad fileId entry.index entry.plainSize) = .ok chunk.data ∧
        UInt64.ofNat chunk.data.length = entry.plainSize ∧ chunk.index = entry.index := by
  unfold decryptLibraryChunk readChunk
  cases stored : (disk paths).chunks (.chunk entry.index) with
  | none => simp
  | some cipher =>
      by_cases size : UInt64.ofNat cipher.length = entry.encryptedSize
      · by_cases hash : hashChunk prims cipher = entry.blake3Hash
        · cases opened : decryptChunk prims fileKey entry.nonce cipher
              (buildChunkAad fileId entry.index entry.plainSize) with
          | error failure => simp [size, hash, opened]
          | ok data =>
              obtain ⟨index, bytes⟩ := chunk
              by_cases plain : UInt64.ofNat data.length = entry.plainSize
              · simp only [size, hash, opened, plain, ne_eq, not_true_eq_false, if_true, if_false,
                  Except.ok.injEq, DecryptedChunk.mk.injEq, Option.some.injEq]
                constructor
                · rintro ⟨rfl, rfl⟩
                  exact ⟨cipher, rfl, size, hash, opened, plain, rfl⟩
                · rintro ⟨other, rfl, -, -, same, -, rfl⟩
                  exact ⟨rfl, by simpa [opened] using same⟩
              · simp only [size, hash, opened, plain, ne_eq, not_true_eq_false, not_false_eq_true,
                  if_true, if_false, reduceCtorEq, Option.some.injEq, false_iff]
                rintro ⟨other, rfl, -, -, same, matches_size, -⟩
                obtain rfl : data = bytes := by simpa [opened] using same
                exact plain matches_size
        · simp [size, hash]
      · simp [size]

/-- Compare the hash of everything written with the promised file identifier. -/
def finalizeStreamedOutput (prims : Primitives) (written : Bytes) (expectedFileId : FileId) :
    Except NetworkError Unit :=
  if hashFileId prims written ≠ expectedFileId then
    .error (.file .finalHashMismatch)
  else
    .ok ()

/-! ## Sequential reconstruction -/

/-- Append the decrypted chunks one by one, stopping at the first failure. -/
def writeDecrypted (decrypt : ChunkMeta → DecryptResult) :
    Bytes → List ChunkMeta → Bytes × Except NetworkError Unit
  | written, [] => (written, .ok ())
  | written, entry :: rest =>
      match decrypt entry with
      | .error failure => (written, .error failure)
      | .ok chunk => writeDecrypted decrypt (written ++ chunk.data) rest

/-- The bytes written to the output and the outcome of the sequential reconstruction. -/
def decryptLibraryChunksToFileSequential (prims : Primitives) (disk : Disk)
    (paths : LibraryPaths) (manifest : Manifest) (fileKey : SymmetricKey) :
    Bytes × Except NetworkError Unit :=
  match writeDecrypted (decryptLibraryChunk prims disk paths manifest.fileId fileKey) []
      manifest.chunks with
  | (written, .error failure) => (written, .error failure)
  | (written, .ok ()) => (written, finalizeStreamedOutput prims written manifest.fileId)

/-! ## Parallel reconstruction -/

/-- Where a decryption worker stands. -/
inductive DecryptWorker where
  /-- About to lock the queue and pop. -/
  | popping
  /-- Holding the result for an entry, about to send it. -/
  | sending (entry : ChunkMeta)
  | finished
  deriving DecidableEq

/-- The loop variables of the consumer. -/
structure WriteCursor where
  nextPosition : Nat
  pending : TreeMap UInt32 Bytes
  firstError : Option NetworkError
  written : Bytes

/-- Where the consuming thread stands; `received` is the counter of its receive loop. -/
inductive Consumer where
  | receiving (received : Nat) (cursor : WriteCursor)
  /-- Past the loop, joining the workers. -/
  | joining (received : Nat) (cursor : WriteCursor)
  /-- Left early through a failed write; the scope still waits for its threads. -/
  | unwinding (received : Nat) (cursor : WriteCursor)
  | returned (written : Bytes) (outcome : Except NetworkError Unit)

/-- A parallel reconstruction with a fixed number of workers. -/
structure Reconstruction (workerCount : Nat) where
  queue : List ChunkMeta
  workers : Fin workerCount → DecryptWorker
  channel : List DecryptResult
  consumer : Consumer

/-- The steps of a parallel reconstruction.  A receive names how many of the writes it leads to
succeed before one fails; `none` means that all succeed. -/
inductive ReconstructEvent (workerCount : Nat) where
  | pop (worker : Fin workerCount)
  | send (worker : Fin workerCount)
  | receive (writes : Option Nat)
  | disconnected
  | leaveLoop
  | join

/-- Write out the pending chunks that are next in order.  The flag reports a failed write. -/
def drainPending : List UInt32 → Option Nat → WriteCursor → WriteCursor × Bool
  | [], _, cursor => (cursor, false)
  | expected :: order, writes, cursor =>
      match cursor.pending[expected]? with
      | none => (cursor, false)
      | some data =>
          let removed := { cursor with pending := cursor.pending.erase expected }
          match writes with
          | some 0 => (removed, true)
          | some (budget + 1) =>
              drainPending order (some budget)
                { removed with
                  nextPosition := cursor.nextPosition + 1, written := cursor.written ++ data }
          | none =>
              drainPending order none
                { removed with
                  nextPosition := cursor.nextPosition + 1, written := cursor.written ++ data }

/-- What one received result does to the loop variables. -/
def consumeResult (expectedOrder : List UInt32) (writes : Option Nat) (cursor : WriteCursor) :
    DecryptResult → WriteCursor × Bool
  | .ok chunk =>
      match cursor.firstError with
      | none =>
          drainPending (expectedOrder.drop cursor.nextPosition) writes
            { cursor with pending := cursor.pending.insert chunk.index chunk.data }
      | some _ => (cursor, false)
  | .error failure =>
      ({ cursor with firstError := some (cursor.firstError.getD failure) }, false)

/-- The result of the function once the loop is over and every worker is joined. -/
def reconstructOutcome (prims : Primitives) (fileId : FileId) (cursor : WriteCursor) :
    Except NetworkError Unit :=
  match cursor.firstError with
  | some failure => .error failure
  | none =>
      if cursor.pending.isEmpty then
        finalizeStreamedOutput prims cursor.written fileId
      else
        .error (.peerError "parallel decrypt finished with unwritten chunks")

section Parallel

variable (prims : Primitives) (disk : Disk) (paths : LibraryPaths) (manifest : Manifest)
  (fileKey : SymmetricKey) {workerCount : Nat}

/-- A worker takes the next entry, or stops when there is none. -/
def popEntry (state : Reconstruction workerCount) (worker : Fin workerCount) :
    Option (Reconstruction workerCount) :=
  match state.workers worker, state.queue with
  | .popping, [] =>
      some { state with workers := Function.update state.workers worker .finished }
  | .popping, entry :: rest =>
      some { state with
        queue := rest, workers := Function.update state.workers worker (.sending entry) }
  | _, _ => none

/-- A worker puts its result into the channel when there is room. -/
def sendResult (state : Reconstruction workerCount) (worker : Fin workerCount) :
    Option (Reconstruction workerCount) :=
  match state.workers worker with
  | .sending entry =>
      if state.channel.length < 2 * workerCount then
        some { state with
          channel := state.channel ++
            [decryptLibraryChunk prims disk paths manifest.fileId fileKey entry]
          workers := Function.update state.workers worker .popping }
      else
        none
  | _ => none

/-- The consumer takes one result and writes what has become writable. -/
def receiveResult (state : Reconstruction workerCount) (writes : Option Nat) :
    Option (Reconstruction workerCount) :=
  match state.consumer, state.channel with
  | .receiving received cursor, result :: rest =>
      if received < manifest.chunks.length then
        match consumeResult manifest.indices writes cursor result with
        | (next, true) =>
            some { state with channel := rest, consumer := .unwinding (received + 1) next }
        | (next, false) =>
            some { state with channel := rest, consumer := .receiving (received + 1) next }
      else
        none
  | _, _ => none

/-- Every worker thread has ended. -/
def Reconstruction.AllFinished (state : Reconstruction workerCount) : Prop :=
  ∀ worker, state.workers worker = .finished

instance Reconstruction.decidableAllFinished (state : Reconstruction workerCount) :
    Decidable state.AllFinished :=
  inferInstanceAs (Decidable (∀ worker, state.workers worker = .finished))

/-- The receive fails because every sender is gone. -/
def receiveDisconnected (state : Reconstruction workerCount) :
    Option (Reconstruction workerCount) :=
  match state.consumer, state.channel with
  | .receiving received cursor, [] =>
      if received < manifest.chunks.length ∧ state.AllFinished then
        some { state with
          consumer := .joining received
            { cursor with
              firstError := some (cursor.firstError.getD
                (.peerError "parallel decrypt worker stopped unexpectedly")) } }
      else
        none
  | _, _ => none

/-- The receive loop has run once per chunk. -/
def leaveReceiveLoop (state : Reconstruction workerCount) :
    Option (Reconstruction workerCount) :=
  match state.consumer with
  | .receiving received cursor =>
      if received < manifest.chunks.length then
        none
      else
        some { state with consumer := .joining received cursor }
  | _ => none

/-- Joining the workers and leaving the scope wait until every worker has ended. -/
def joinWorkers (state : Reconstruction workerCount) : Option (Reconstruction workerCount) :=
  match state.consumer with
  | .joining _ cursor =>
      if state.AllFinished then
        some { state with
          consumer := .returned cursor.written
            (reconstructOutcome prims manifest.fileId cursor) }
      else
        none
  | .unwinding _ cursor =>
      if state.AllFinished then
        some { state with consumer := .returned cursor.written (.error (.io .other)) }
      else
        none
  | _ => none

/-- The parallel reconstruction as a machine over its thread steps. -/
def decryptLibraryChunksToFileParallel (workerCount : Nat) :
    Machine (Reconstruction workerCount) (ReconstructEvent workerCount) where
  step state
    | .pop worker => popEntry state worker
    | .send worker => sendResult prims disk paths manifest fileKey state worker
    | .receive writes => receiveResult manifest state writes
    | .disconnected => receiveDisconnected manifest state
    | .leaveLoop => leaveReceiveLoop manifest state
    | .join => joinWorkers prims manifest state

/-- All entries queued, every worker at its first pop, nothing received. -/
def Reconstruction.initial (workerCount : Nat) : Reconstruction workerCount where
  queue := manifest.chunks
  workers := fun _ => .popping
  channel := []
  consumer := .receiving 0 { nextPosition := 0, pending := ∅, firstError := none, written := [] }

/-- The function has returned. -/
def Reconstruction.HasReturned (state : Reconstruction workerCount) : Prop :=
  ∃ written outcome, state.consumer = .returned written outcome

end Parallel

end Etle
