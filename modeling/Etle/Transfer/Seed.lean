import Etle.Foundations.Machine
import Etle.State.Library

/-!
# The seed encryption pipeline

A reader cuts the input into chunks, workers that share one receiver encrypt them, and a writer
stages the results.  The enclosing function keeps the receiver of plain chunks alive, so the
reader's send never fails; the receiver of encrypted chunks belongs to the writer and goes with it.
-/

namespace Etle

/-- A chunk as it was read. -/
structure SeedPlainChunk where
  index : UInt32
  data : Bytes
  deriving DecidableEq

/-- A chunk with its public metadata, ready to be staged. -/
structure SeedEncryptedChunk where
  entry : ChunkMeta
  ciphertext : Bytes
  deriving DecidableEq

/-- The outcome a seed worker sends. -/
abbrev SeedResult := Except NetworkError SeedEncryptedChunk

/-- Encrypt one chunk under a freshly drawn nonce. -/
def encryptSeedChunk (prims : Primitives) (fileId : FileId) (fileKey : SymmetricKey)
    (nonce : Nonce) (chunk : SeedPlainChunk) : SeedResult :=
  let plainSize := UInt64.ofNat chunk.data.length
  match encryptChunk prims fileKey nonce chunk.data
      (buildChunkAad fileId chunk.index plainSize) with
  | .error failure => .error (.crypto failure)
  | .ok ciphertext =>
      .ok {
        entry := {
          index := chunk.index
          plainSize
          encryptedSize := UInt64.ofNat ciphertext.length
          nonce
          blake3Hash := hashChunk prims ciphertext }
        ciphertext }

/-- The number of seed workers for a reported parallelism. -/
def defaultSeedWorkerCount (availableParallelism : Option Nat) : Nat :=
  max 1 (min (availableParallelism.getD 2) 4)

/-- What reading the input gives: the buffers of the successful reads, and the error that ends
them unless they end at the end of the file. -/
structure InputScript where
  reads : List Bytes
  failure : Option ErrorKind

/-- Where the reading thread stands. -/
inductive SeedReader where
  | reading (index : UInt32) (script : InputScript)
  | sending (chunk : SeedPlainChunk) (script : InputScript)
  /-- The sender of plain chunks is dropped; workers and writer are joined. -/
  | joining
  /-- Left early; the sender is dropped and the scope waits for its threads. -/
  | failed (error : NetworkError)
  | returned (outcome : Except NetworkError (List ChunkMeta))

/-- Where a seed worker stands. -/
inductive SeedWorker where
  | idle
  /-- Holding the lock of the shared receiver. -/
  | receiving
  | encrypting (chunk : SeedPlainChunk)
  | finished
  deriving DecidableEq

/-- Where the writing thread stands. -/
inductive SeedWriter where
  | receiving (collected : List ChunkMeta)
  | ended (outcome : Except NetworkError (List ChunkMeta))

/-- The threads of the pipeline, its two channels and the staging directory. -/
structure SeedPipeline (workerCount : Nat) where
  reader : SeedReader
  plain : List SeedPlainChunk
  workers : Fin workerCount → SeedWorker
  encrypted : List SeedResult
  writer : SeedWriter
  staged : UInt32 → Option Bytes

/-- The steps of the pipeline.  A send draws the nonce of its chunk, and a write names the error
of the staging directory, if there is one. -/
inductive SeedEvent (workerCount : Nat) where
  | read
  | sendPlain
  | lock (worker : Fin workerCount)
  | receive (worker : Fin workerCount)
  | disconnected (worker : Fin workerCount)
  | send (worker : Fin workerCount) (nonce : Nonce)
  | write (failure : Option ErrorKind)
  | finishWriter
  | join

/-- The sender of plain chunks is gone. -/
def SeedReader.dropped : SeedReader → Bool
  | .reading _ _ | .sending _ _ => false
  | .joining | .failed _ | .returned _ => true

/-- The writer still owns the receiver of encrypted chunks. -/
def SeedWriter.alive : SeedWriter → Bool
  | .receiving _ => true
  | .ended _ => false

/-- The metadata in the order of their indices. -/
def sortByIndex (metas : List ChunkMeta) : List ChunkMeta :=
  metas.insertionSort fun left right => left.index ≤ right.index

section Steps

variable (prims : Primitives) (fileId : FileId) (fileKey : SymmetricKey) {workerCount : Nat}

/-- One turn of the read loop up to its send. -/
def readInput (state : SeedPipeline workerCount) : Option (SeedPipeline workerCount) :=
  match state.reader with
  | .reading index { reads := data :: rest, failure } =>
      some { state with reader := .sending { index, data } { reads := rest, failure } }
  | .reading _ { reads := [], failure := none } => some { state with reader := .joining }
  | .reading _ { reads := [], failure := some kind } =>
      some { state with reader := .failed (.io kind) }
  | _ => none

/-- The send of the read loop and the checked increment after it. -/
def sendPlainChunk (state : SeedPipeline workerCount) : Option (SeedPipeline workerCount) :=
  match state.reader with
  | .sending chunk script =>
      if state.plain.length < 2 * workerCount then
        some { state with
          plain := state.plain ++ [chunk]
          reader :=
            if chunk.index.toNat + 1 < UInt32.size then
              .reading (chunk.index + 1) script
            else
              .failed (.file .tooManyChunks) }
      else
        none
  | _ => none

/-- A worker takes the lock of the shared receiver when no other worker has it. -/
def lockReceiver (state : SeedPipeline workerCount) (worker : Fin workerCount) :
    Option (SeedPipeline workerCount) :=
  if state.workers worker = .idle ∧ ∀ other, state.workers other ≠ .receiving then
    some { state with workers := Function.update state.workers worker .receiving }
  else
    none

/-- The worker that has the lock takes the next plain chunk. -/
def receivePlainChunk (state : SeedPipeline workerCount) (worker : Fin workerCount) :
    Option (SeedPipeline workerCount) :=
  match state.workers worker, state.plain with
  | .receiving, chunk :: rest =>
      some { state with
        plain := rest, workers := Function.update state.workers worker (.encrypting chunk) }
  | _, _ => none

/-- The worker that has the lock finds the channel empty and its sender gone. -/
def receiveNothing (state : SeedPipeline workerCount) (worker : Fin workerCount) :
    Option (SeedPipeline workerCount) :=
  if state.workers worker = .receiving ∧ state.plain = [] ∧ state.reader.dropped then
    some { state with workers := Function.update state.workers worker .finished }
  else
    none

/-- A worker sends its result when there is room, and stops when the receiver is gone. -/
def sendEncrypted (state : SeedPipeline workerCount) (worker : Fin workerCount) (nonce : Nonce) :
    Option (SeedPipeline workerCount) :=
  match state.workers worker with
  | .encrypting chunk =>
      if state.writer.alive then
        if state.encrypted.length < 2 * workerCount then
          some { state with
            encrypted := state.encrypted ++ [encryptSeedChunk prims fileId fileKey nonce chunk]
            workers := Function.update state.workers worker .idle }
        else
          none
      else
        some { state with workers := Function.update state.workers worker .finished }
  | _ => none

/-- One turn of the writer's loop.  An error ends the writer and drops its receiver. -/
def writeStaged (state : SeedPipeline workerCount) (failure : Option ErrorKind) :
    Option (SeedPipeline workerCount) :=
  match state.writer, state.encrypted with
  | .receiving _, .error error :: _ =>
      some { state with writer := .ended (.error error), encrypted := [] }
  | .receiving collected, .ok chunk :: rest =>
      match failure with
      | some kind => some { state with writer := .ended (.error (.io kind)), encrypted := [] }
      | none =>
          some { state with
            writer := .receiving (collected ++ [chunk.entry])
            encrypted := rest
            staged := Function.update state.staged chunk.entry.index (some chunk.ciphertext) }
  | _, _ => none

/-- Every worker thread has ended. -/
def SeedPipeline.AllFinished (state : SeedPipeline workerCount) : Prop :=
  ∀ worker, state.workers worker = .finished

instance SeedPipeline.decidableAllFinished (state : SeedPipeline workerCount) :
    Decidable state.AllFinished :=
  inferInstanceAs (Decidable (∀ worker, state.workers worker = .finished))

/-- The writer finds the channel empty and every sender gone. -/
def finishWriter (state : SeedPipeline workerCount) : Option (SeedPipeline workerCount) :=
  match state.writer, state.encrypted with
  | .receiving collected, [] =>
      if state.AllFinished then
        some { state with writer := .ended (.ok (sortByIndex collected)) }
      else
        none
  | _, _ => none

/-- Joining, or leaving the scope, waits until every thread has ended. -/
def joinThreads (state : SeedPipeline workerCount) : Option (SeedPipeline workerCount) :=
  match state.reader, state.writer with
  | .joining, .ended outcome =>
      if state.AllFinished then some { state with reader := .returned outcome } else none
  | .failed error, .ended _ =>
      if state.AllFinished then some { state with reader := .returned (.error error) } else none
  | _, _ => none

/-- The pipeline as a machine over its thread steps. -/
def encryptFileToStagingParallel (workerCount : Nat) :
    Machine (SeedPipeline workerCount) (SeedEvent workerCount) where
  step state
    | .read => readInput state
    | .sendPlain => sendPlainChunk state
    | .lock worker => lockReceiver state worker
    | .receive worker => receivePlainChunk state worker
    | .disconnected worker => receiveNothing state worker
    | .send worker nonce => sendEncrypted prims fileId fileKey state worker nonce
    | .write failure => writeStaged state failure
    | .finishWriter => finishWriter state
    | .join => joinThreads state

/-- The pipeline at its start, over an empty staging directory. -/
def SeedPipeline.initial (script : InputScript) (workerCount : Nat) : SeedPipeline workerCount where
  reader := .reading 0 script
  plain := []
  workers := fun _ => .idle
  encrypted := []
  writer := .receiving []
  staged := fun _ => none

/-- The function has returned. -/
def SeedPipeline.HasReturned (state : SeedPipeline workerCount) : Prop :=
  ∃ outcome, state.reader = .returned outcome

end Steps

end Etle
