import Etle.Foundations.Machine
import Etle.Transfer.DownloadState

/-!
# The windowed download loop

The client keeps several requests in flight.  It fills its window from the manifest, waits for one
reply, verifies and stores it, and widens the window after as many chunks as it is wide.  One step
of the machine is one turn of the inner loop, one receive, one store, or one update of the completed
set; the peer's replies come with the receives.
-/

namespace Etle

open Std (TreeMap TreeSet)

/-- The variables of the loop; `todo` is the rest of the manifest from the next entry on. -/
structure WindowLoop where
  todo : List ChunkMeta
  inFlight : TreeMap UInt32 ChunkMeta
  activeRequestWindow : Nat
  chunksSinceWindowGrowth : Nat
  chunks : TreeMap UInt32 EncryptedChunk
  completed : TreeSet UInt32

/-- The window to start with. -/
def initialRequestWindow (maxRequestWindow : Nat) : Nat := max 1 (min maxRequestWindow 4)

/-- Double the window, up to its maximum, after as many chunks as it is wide. -/
def maybeGrowRequestWindow (maxRequestWindow : Nat) (loop : WindowLoop) : WindowLoop :=
  if maxRequestWindow ≤ loop.activeRequestWindow then
    loop
  else if loop.chunksSinceWindowGrowth < loop.activeRequestWindow then
    loop
  else
    { loop with
      chunksSinceWindowGrowth := 0
      activeRequestWindow := min (loop.activeRequestWindow * 2) maxRequestWindow }

/-- The loop variables before the first turn. -/
def WindowLoop.initial (manifest : Manifest) (completed : TreeSet UInt32)
    (chunks : TreeMap UInt32 EncryptedChunk) (requestWindow : Nat) : WindowLoop where
  todo := manifest.chunks
  inFlight := ∅
  activeRequestWindow := initialRequestWindow (max requestWindow 1)
  chunksSinceWindowGrowth := 0
  chunks := chunks
  completed := completed

/-- One turn of the inner loop: the index to request, if any, and the variables after it. -/
def WindowLoop.next (peerAvailable : TreeSet UInt32) (loop : WindowLoop) :
    Option (Option UInt32 × WindowLoop) :=
  if loop.inFlight.size < loop.activeRequestWindow then
    match loop.todo with
    | [] => none
    | entry :: rest =>
        if loop.completed.contains entry.index || !peerAvailable.contains entry.index then
          some (none, { loop with todo := rest })
        else
          some (some entry.index,
            { loop with todo := rest, inFlight := loop.inFlight.insert entry.index entry })
  else
    none

/-- Where the loop stands between two steps. -/
inductive WindowPhase where
  | running
  /-- A frame has arrived; `temp` is where its raw chunk went. -/
  | received (frame : ReceivedChunkFrame) (temp : Option TempPath)
  /-- A chunk is stored and marked; `chunk` is its content if it came as a message. -/
  | persisted (index : UInt32) (chunk : Option EncryptedChunk)
  | ended (outcome : Except NetworkError Unit)

/-- The loop, the library it fills and where it stands. -/
structure WindowedDownload where
  loop : WindowLoop
  session : LibrarySession
  phase : WindowPhase

/-- The steps of the loop.  A request names the failure of its send, a receive the peer's next
frame and the current time, and a persist whether the flush interval is over. -/
inductive WindowEvent where
  | request (failure : Option ErrorKind)
  | receive (reply : Option Frame) (stagingTimestamp : Nat)
  | persist (elapsed : Bool)
  | complete
  | finish

/-- The chunks go to a library rather than into memory. -/
def WindowedDownload.streamingToLibrary (state : WindowedDownload) : Bool :=
  state.session.active.isSome

/-- The entry a reply answers, or the error of a reply that answers none. -/
def takeInFlight (inFlight : TreeMap UInt32 ChunkMeta) (index : UInt32) :
    Except NetworkError ChunkMeta :=
  match inFlight[index]? with
  | some entry => .ok entry
  | none => .error (.unexpectedChunkIndex (inFlight.minKey?.getD index) index)

/-- Remove the temporary file of a reply that did not need it. -/
def discardTemp : Option TempPath → OnLibrary Unit
  | none => return
  | some temp => onDisk (removeFileIfExists temp)

/-- Verify a reply against the entry it answers and store it. -/
def persistReply (prims : Primitives) (outputDir : Option PathBuf)
    (inFlight : TreeMap UInt32 ChunkMeta) (elapsed : Bool) :
    ReceivedChunkFrame → Option TempPath → OnLibrary (UInt32 × Option EncryptedChunk)
  | .rawChunkFile index _ blake3Hash, some temp => do
      let entry ← EStateM.liftExcept id (takeInFlight inFlight index)
      if blake3Hash ≠ entry.blake3Hash.bytes then
        onDisk (removeFileIfExists temp)
        throw (.file (.chunkHashMismatch entry.index))
      else
        persistDownloadedChunkFile index temp outputDir elapsed
        return (index, none)
  -- The source marks this case unreachable: a raw chunk file always has its temporary path.
  | .rawChunkFile index _ _, none => throw (.unexpectedChunkIndex index index)
  | .message (.chunk index data), temp => do
      discardTemp temp
      let entry ← EStateM.liftExcept id (takeInFlight inFlight index)
      if hashChunk prims data ≠ entry.blake3Hash then
        throw (.file (.chunkHashMismatch entry.index))
      else
        persistDownloadedChunk { index, data } outputDir elapsed
        return (index, some { index, data })
  | .message (.error message), temp => do
      discardTemp temp
      throw (.peerError message)
  | .message actual, temp => do
      discardTemp temp
      throw (.unexpectedMessage "Chunk" actual)

section Steps

variable (prims : Primitives) (outputDir : Option PathBuf) (peerAvailable : TreeSet UInt32)
  (maxRequestWindow : Nat)

/-- One turn of the inner loop. -/
def requestNext (state : WindowedDownload) (failure : Option ErrorKind) :
    Option WindowedDownload :=
  match state.phase, state.loop.next peerAvailable with
  | .running, some (none, loop) => some { state with loop }
  | .running, some (some _, loop) =>
      match failure with
      | none => some { state with loop }
      | some kind => some { state with phase := .ended (.error (.protocol (.io kind))) }
  | _, _ => none

/-- Read one reply, into a temporary file when the chunks go to a library. -/
def receiveNext (state : WindowedDownload) (reply : Option Frame) (stagingTimestamp : Nat) :
    Option WindowedDownload :=
  match state.phase, state.loop.next peerAvailable with
  | .running, none =>
      if state.loop.inFlight.isEmpty then
        none
      else if state.streamingToLibrary then
        match downloadChunkTempPath state.session.active 0 stagingTimestamp with
        | .error error => some { state with phase := .ended (.error error) }
        | .ok temp =>
            match (receiveChunkToFile prims temp reply.toList).run state.session with
            | .ok (frame, _) session =>
                some { state with session, phase := .received frame (some temp) }
            | .error error session => some { state with session, phase := .ended (.error error) }
      else
        match receiveFrame reply.toList with
        | .error error => some { state with phase := .ended (.error (.protocol error)) }
        | .ok (message, _) => some { state with phase := .received (.message message) none }
  | _, _ => none

/-- Verify and store the reply that has arrived. -/
def persistNext (state : WindowedDownload) (elapsed : Bool) : Option WindowedDownload :=
  match state.phase with
  | .received frame temp =>
      match (persistReply prims outputDir state.loop.inFlight elapsed frame temp).run
          state.session with
      | .ok (index, chunk) session =>
          some {
            loop := { state.loop with inFlight := state.loop.inFlight.erase index }
            session, phase := .persisted index chunk }
      | .error error session => some { state with session, phase := .ended (.error error) }
  | _ => none

/-- Count the stored chunk as completed and widen the window when it is time. -/
def completeNext (state : WindowedDownload) : Option WindowedDownload :=
  match state.phase with
  | .persisted index chunk =>
      let chunks :=
        match state.streamingToLibrary, chunk with
        | false, some chunk => state.loop.chunks.insert index chunk
        | _, _ => state.loop.chunks
      some { state with
        loop := maybeGrowRequestWindow maxRequestWindow
          { state.loop with
            completed := state.loop.completed.insert index
            chunks
            chunksSinceWindowGrowth := state.loop.chunksSinceWindowGrowth + 1 }
        phase := .running }
  | _ => none

/-- Leave the loop when nothing is in flight and nothing is left to request. -/
def finishLoop (state : WindowedDownload) : Option WindowedDownload :=
  match state.phase, state.loop.next peerAvailable with
  | .running, none =>
      if state.loop.inFlight.isEmpty then some { state with phase := .ended (.ok ()) } else none
  | _, _ => none

/-- The windowed download loop as a machine. -/
def downloadMissingChunksWindowed (requestWindow : Nat) : Machine WindowedDownload WindowEvent where
  step state
    | .request failure => requestNext peerAvailable state failure
    | .receive reply stagingTimestamp =>
        receiveNext prims peerAvailable state reply stagingTimestamp
    | .persist elapsed => persistNext prims outputDir state elapsed
    | .complete => completeNext (max requestWindow 1) state
    | .finish => finishLoop peerAvailable state

/-- The loop before its first step. -/
def WindowedDownload.initial (manifest : Manifest) (completed : TreeSet UInt32)
    (chunks : TreeMap UInt32 EncryptedChunk) (session : LibrarySession) (requestWindow : Nat) :
    WindowedDownload where
  loop := WindowLoop.initial manifest completed chunks requestWindow
  session := session
  phase := .running

end Steps

end Etle
