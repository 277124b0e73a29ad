import Etle.Foundations.Machine
import Etle.Transfer.DownloadState

/-!
# Parallel download workers

One worker per connected peer.  The workers share a queue of missing indices, the set of completed
indices and the library handle, each behind its own lock.  A worker keeps the queue locked while it
looks for an index its peer has; a worker whose request fails puts its index back and ends.
-/

namespace Etle

open Std (TreeSet)

/-- Where a download worker stands. -/
inductive DownloadWorker where
  /-- About to announce the chunks that are already there. -/
  | starting
  /-- At the head of its loop. -/
  | ready
  /-- Holding the queue lock, with the given number of attempts left. -/
  | popping (attempts : Nat)
  /-- Holding the queue lock and an index that it has popped. -/
  | examining (attempts : Nat) (index : UInt32)
  | requesting (entry : ChunkMeta)
  | receiving (entry : ChunkMeta) (temp : TempPath)
  | received (entry : ChunkMeta) (temp : TempPath) (frame : ReceivedChunkFrame)
  /-- The chunk is stored and marked, but not yet in the completed set. -/
  | completing (index : UInt32)
  /-- The request has failed and the index is to go back to the queue. -/
  | failing (index : UInt32) (error : NetworkError)
  /-- Nothing left to pop; about to announce what is there. -/
  | finishing
  | ended (outcome : Except NetworkError Unit)

/-- The worker holds the lock of the queue. -/
def DownloadWorker.locksQueue : DownloadWorker → Bool
  | .popping _ | .examining _ _ => true
  | _ => false

/-- The temporary file a worker uses. -/
def DownloadWorker.temp : DownloadWorker → Option TempPath
  | .receiving _ temp | .received _ temp _ => some temp
  | _ => none

/-- What the workers share, and where each of them stands. -/
structure ParallelDownload (peerCount : Nat) where
  queue : List UInt32
  completed : TreeSet UInt32
  session : LibrarySession
  workers : Fin peerCount → DownloadWorker

/-- The steps of the workers.  Sends name their failure, a request also the time that names its
temporary file, a receive the peer's next frame, and a store whether the flush interval is over. -/
inductive ParallelEvent (peerCount : Nat) where
  | start (worker : Fin peerCount) (failure : Option ErrorKind)
  | lock (worker : Fin peerCount)
  | pop (worker : Fin peerCount)
  | examine (worker : Fin peerCount)
  | request (worker : Fin peerCount) (failure : Option ErrorKind) (stagingTimestamp : Nat)
  | receive (worker : Fin peerCount) (reply : Option Frame)
  | store (worker : Fin peerCount) (elapsed : Bool)
  | complete (worker : Fin peerCount)
  | release (worker : Fin peerCount)
  | finish (worker : Fin peerCount)

/-- Verify what a request brought and persist it; the result is the length of the chunk. -/
def storeReceivedChunk (prims : Primitives) (outputDir : Option PathBuf) (entry : ChunkMeta)
    (temp : TempPath) (elapsed : Bool) : ReceivedChunkFrame → OnLibrary Nat
  | .rawChunkFile index dataLen blake3Hash => do
      if index ≠ entry.index then
        onDisk (removeFileIfExists temp)
        throw (.unexpectedChunkIndex entry.index index)
      else if blake3Hash ≠ entry.blake3Hash.bytes then
        onDisk (removeFileIfExists temp)
        throw (.file (.chunkHashMismatch entry.index))
      else
        persistDownloadedChunkFile entry.index temp outputDir elapsed
        return dataLen
  | .message (.chunk index data) => do
      onDisk (removeFileIfExists temp)
      if index ≠ entry.index then
        throw (.unexpectedChunkIndex entry.index index)
      else if hashChunk prims data ≠ entry.blake3Hash then
        throw (.file (.chunkHashMismatch entry.index))
      else
        persistDownloadedChunk { index, data } outputDir elapsed
        return data.length
  | .message (.error message) => do
      onDisk (removeFileIfExists temp)
      throw (.peerError message)
  | .message actual => do
      onDisk (removeFileIfExists temp)
      throw (.unexpectedMessage "Chunk" actual)

section Steps

variable (prims : Primitives) (manifest : Manifest) (outputDir : Option PathBuf)
  {peerCount : Nat} (available : Fin peerCount → TreeSet UInt32)

/-- Put one worker into a new position. -/
def ParallelDownload.move (state : ParallelDownload peerCount) (worker : Fin peerCount)
    (position : DownloadWorker) : ParallelDownload peerCount :=
  { state with workers := Function.update state.workers worker position }

/-- No worker holds the lock of the queue. -/
def ParallelDownload.QueueFree (state : ParallelDownload peerCount) : Prop :=
  ∀ worker, (state.workers worker).locksQueue = false

instance ParallelDownload.decidableQueueFree (state : ParallelDownload peerCount) :
    Decidable state.QueueFree :=
  inferInstanceAs (Decidable (∀ worker, (state.workers worker).locksQueue = false))

/-- The announcement a worker starts with, unless there is nothing to announce. -/
def startWorker (state : ParallelDownload peerCount) (worker : Fin peerCount)
    (failure : Option ErrorKind) : Option (ParallelDownload peerCount) :=
  match state.workers worker with
  | .starting =>
      if state.completed.isEmpty then
        some (state.move worker .ready)
      else
        match failure with
        | none => some (state.move worker .ready)
        | some kind => some (state.move worker (.ended (.error (.protocol (.io kind)))))
  | _ => none

/-- Lock the queue and allow as many attempts as it is long. -/
def lockQueue (state : ParallelDownload peerCount) (worker : Fin peerCount) :
    Option (ParallelDownload peerCount) :=
  match state.workers worker with
  | .ready =>
      if state.QueueFree then some (state.move worker (.popping state.queue.length)) else none
  | _ => none

/-- Pop the front of the queue, or give up. -/
def popFront (state : ParallelDownload peerCount) (worker : Fin peerCount) :
    Option (ParallelDownload peerCount) :=
  match state.workers worker, state.queue with
  | .popping (attempts + 1), index :: rest =>
      some ({ state with queue := rest }.move worker (.examining attempts index))
  | .popping _, _ => some (state.move worker .finishing)
  | _, _ => none

/-- Drop a completed index, take one the peer has, or rotate it to the back. -/
def examineIndex (state : ParallelDownload peerCount) (worker : Fin peerCount) :
    Option (ParallelDownload peerCount) :=
  match state.workers worker with
  | .examining attempts index =>
      if state.completed.contains index then
        some (state.move worker (.popping attempts))
      else if (available worker).contains index then
        match manifest.chunks.find? fun entry => entry.index == index with
        | none => some (state.move worker .ready)
        | some entry => some (state.move worker (.requesting entry))
      else
        some ({ state with queue := state.queue ++ [index] }.move worker (.popping attempts))
  | _ => none

/-- Send the request and choose the temporary path. -/
def requestChunk (state : ParallelDownload peerCount) (worker : Fin peerCount)
    (failure : Option ErrorKind) (stagingTimestamp : Nat) : Option (ParallelDownload peerCount) :=
  match state.workers worker, failure with
  | .requesting entry, some kind =>
      some (state.move worker (.failing entry.index (.protocol (.io kind))))
  | .requesting entry, none =>
      match downloadChunkTempPath state.session.active entry.index stagingTimestamp with
      | .error error => some (state.move worker (.failing entry.index error))
      | .ok temp => some (state.move worker (.receiving entry temp))
  | _, _ => none

/-- Receive the reply into the temporary file. -/
def receiveReply (state : ParallelDownload peerCount) (worker : Fin peerCount)
    (reply : Option Frame) : Option (ParallelDownload peerCount) :=
  match state.workers worker with
  | .receiving entry temp =>
      match (receiveChunkToFile prims temp reply.toList).run state.session with
      | .ok (frame, _) session =>
          some ({ state with session }.move worker (.received entry temp frame))
      | .error error session =>
          some ({ state with session }.move worker (.failing entry.index error))
  | _ => none

/-- Verify and persist under the lock of the library handle. -/
def storeReply (state : ParallelDownload peerCount) (worker : Fin peerCount) (elapsed : Bool) :
    Option (ParallelDownload peerCount) :=
  match state.workers worker with
  | .received entry temp frame =>
      match (storeReceivedChunk prims outputDir entry temp elapsed frame).run state.session with
      | .ok _ session => some ({ state with session }.move worker (.completing entry.index))
      | .error error session =>
          some ({ state with session }.move worker (.failing entry.index error))
  | _ => none

/-- Add the stored index to the completed set. -/
def completeIndex (state : ParallelDownload peerCount) (worker : Fin peerCount) :
    Option (ParallelDownload peerCount) :=
  match state.workers worker with
  | .completing index =>
      some ({ state with completed := state.completed.insert index }.move worker .ready)
  | _ => none

/-- Put the index of a failed request back and end. -/
def releaseIndex (state : ParallelDownload peerCount) (worker : Fin peerCount) :
    Option (ParallelDownload peerCount) :=
  match state.workers worker with
  | .failing index error =>
      if state.QueueFree then
        some ({ state with queue := state.queue ++ [index] }.move worker (.ended (.error error)))
      else
        none
  | _ => none

/-- The last announcement, whose failure is ignored. -/
def finishWorker (state : ParallelDownload peerCount) (worker : Fin peerCount) :
    Option (ParallelDownload peerCount) :=
  match state.workers worker with
  | .finishing => some (state.move worker (.ended (.ok ())))
  | _ => none

/-- The workers of a parallel download as a machine over their steps. -/
def parallelDownloadWorkers : Machine (ParallelDownload peerCount) (ParallelEvent peerCount) where
  step state
    | .start worker failure => startWorker state worker failure
    | .lock worker => lockQueue state worker
    | .pop worker => popFront state worker
    | .examine worker => examineIndex manifest available state worker
    | .request worker failure stagingTimestamp =>
        requestChunk state worker failure stagingTimestamp
    | .receive worker reply => receiveReply prims state worker reply
    | .store worker elapsed => storeReply prims outputDir state worker elapsed
    | .complete worker => completeIndex state worker
    | .release worker => releaseIndex state worker
    | .finish worker => finishWorker state worker

/-- The missing indices of a manifest, in its order. -/
def missingChunks (manifest : Manifest) (completed : TreeSet UInt32) : List UInt32 :=
  manifest.indices.filter fun index => !completed.contains index

/-- All workers about to start over the given library session and completed set. -/
def ParallelDownload.initial (manifest : Manifest) (completed : TreeSet UInt32)
    (session : LibrarySession) (peerCount : Nat) : ParallelDownload peerCount where
  queue := missingChunks manifest completed
  completed := completed
  session := session
  workers := fun _ => .starting

/-- Every worker has ended. -/
def ParallelDownload.AllEnded (state : ParallelDownload peerCount) : Prop :=
  ∀ worker, ∃ outcome, state.workers worker = .ended outcome

end Steps

/-- What remains to be done once the workers have ended: decrypt, or fall back to the peers one by
one because of the first missing chunk. -/
inductive AfterWorkers where
  | decrypt
  | fallback (firstMissing : UInt32)
  deriving DecidableEq

/-- The decision after the workers: count first, then look for a missing chunk. -/
def afterWorkers (manifest : Manifest) (completed : TreeSet UInt32) : AfterWorkers :=
  if completed.size ≠ manifest.chunks.length then
    match manifest.chunks.find? fun entry => !completed.contains entry.index with
    | some entry => .fallback entry.index
    | none => .decrypt
  else
    .decrypt

end Etle
