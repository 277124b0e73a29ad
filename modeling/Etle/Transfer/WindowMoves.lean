import Etle.Foundations.FiniteSets
import Etle.Transfer.StoredChunks

/-!
# Steps of the windowed loop

What each step of the loop does, and what every step keeps: requests are for entries of the
manifest that the peer has and that are not completed, and the completed indices are those of the
manifest.
-/

namespace Etle

open Std (TreeMap TreeSet)

/-- The index that has been stored and not yet counted as completed. -/
def WindowPhase.stored : WindowPhase → List UInt32
  | .persisted index _ => [index]
  | _ => []

section

variable {prims : Primitives} {outputDir : Option PathBuf} {peerAvailable : TreeSet UInt32}
  {requestWindow : Nat}

/-- What each step of the windowed loop does. -/
inductive WindowMove (prims : Primitives) (outputDir : Option PathBuf)
    (peerAvailable : TreeSet UInt32) (requestWindow : Nat) (state : WindowedDownload) :
    WindowEvent → WindowedDownload → Prop
  | skip {failure : Option ErrorKind} {entry : ChunkMeta} {rest : List ChunkMeta}
      (running : state.phase = .running)
      (room : state.loop.inFlight.size < state.loop.activeRequestWindow)
      (here : state.loop.todo = entry :: rest)
      (needless : entry.index ∈ state.loop.completed ∨ entry.index ∉ peerAvailable) :
      WindowMove prims outputDir peerAvailable requestWindow state (.request failure)
        { state with loop := { state.loop with todo := rest } }
  | send {entry : ChunkMeta} {rest : List ChunkMeta} (running : state.phase = .running)
      (room : state.loop.inFlight.size < state.loop.activeRequestWindow)
      (here : state.loop.todo = entry :: rest) (missing : entry.index ∉ state.loop.completed)
      (has : entry.index ∈ peerAvailable) :
      WindowMove prims outputDir peerAvailable requestWindow state (.request none)
        { state with
          loop := { state.loop with
            todo := rest, inFlight := state.loop.inFlight.insert entry.index entry } }
  | sendFails {failure : Option ErrorKind} {kind : ErrorKind} (running : state.phase = .running)
      (failed : failure = some kind) :
      WindowMove prims outputDir peerAvailable requestWindow state (.request failure)
        { state with phase := .ended (.error (.protocol (.io kind))) }
  | receive {reply : Option Frame} {stagingTimestamp : Nat} {library : ActiveDownloadLibraryState}
      {frame : ReceivedChunkFrame} {rest : List Frame} {session : LibrarySession}
      (running : state.phase = .running) (full : state.loop.next peerAvailable = none)
      (waiting : state.loop.inFlight.isEmpty = false)
      (active : state.session.active = some library)
      (arrived : (receiveChunkToFile prims
        { paths := library.paths, index := 0, suffix := stagingTimestamp } reply.toList).run
          state.session = .ok (frame, rest) session) :
      WindowMove prims outputDir peerAvailable requestWindow state
        (.receive reply stagingTimestamp)
        { state with
          session
          phase := .received frame
            (some { paths := library.paths, index := 0, suffix := stagingTimestamp }) }
  | receiveFails {reply : Option Frame} {stagingTimestamp : Nat}
      {library : ActiveDownloadLibraryState} {error : NetworkError} {session : LibrarySession}
      (running : state.phase = .running) (full : state.loop.next peerAvailable = none)
      (waiting : state.loop.inFlight.isEmpty = false)
      (active : state.session.active = some library)
      (failed : (receiveChunkToFile prims
        { paths := library.paths, index := 0, suffix := stagingTimestamp } reply.toList).run
          state.session = .error error session) :
      WindowMove prims outputDir peerAvailable requestWindow state
        (.receive reply stagingTimestamp)
        { state with session, phase := .ended (.error error) }
  | receiveMessage {reply : Option Frame} {stagingTimestamp : Nat} {message : WireMessage}
      {rest : List Frame} (running : state.phase = .running)
      (full : state.loop.next peerAvailable = none)
      (waiting : state.loop.inFlight.isEmpty = false) (active : state.session.active = none)
      (arrived : receiveFrame reply.toList = .ok (message, rest)) :
      WindowMove prims outputDir peerAvailable requestWindow state
        (.receive reply stagingTimestamp)
        { state with phase := .received (.message message) none }
  | receiveMessageFails {reply : Option Frame} {stagingTimestamp : Nat} {error : ProtocolError}
      (running : state.phase = .running) (full : state.loop.next peerAvailable = none)
      (waiting : state.loop.inFlight.isEmpty = false) (active : state.session.active = none)
      (failed : receiveFrame reply.toList = .error error) :
      WindowMove prims outputDir peerAvailable requestWindow state
        (.receive reply stagingTimestamp)
        { state with phase := .ended (.error (.protocol error)) }
  | persist {elapsed : Bool} {frame : ReceivedChunkFrame} {temp : Option TempPath}
      {index : UInt32} {chunk : Option EncryptedChunk} {session : LibrarySession}
      (received : state.phase = .received frame temp)
      (persisted : (persistReply prims outputDir state.loop.inFlight elapsed frame temp).run
        state.session = .ok (index, chunk) session) :
      WindowMove prims outputDir peerAvailable requestWindow state (.persist elapsed)
        { loop := { state.loop with inFlight := state.loop.inFlight.erase index }
          session, phase := .persisted index chunk }
  | persistFails {elapsed : Bool} {frame : ReceivedChunkFrame} {temp : Option TempPath}
      {error : NetworkError} {session : LibrarySession}
      (received : state.phase = .received frame temp)
      (failed : (persistReply prims outputDir state.loop.inFlight elapsed frame temp).run
        state.session = .error error session) :
      WindowMove prims outputDir peerAvailable requestWindow state (.persist elapsed)
        { state with session, phase := .ended (.error error) }
  | complete {index : UInt32} {chunk : Option EncryptedChunk} {window since : Nat}
      {chunks : TreeMap UInt32 EncryptedChunk}
      (persisted : state.phase = .persisted index chunk)
      (kept : (state.session.active = none ∧ ∃ content, chunk = some content ∧
          chunks = state.loop.chunks.insert index content) ∨
        ((state.session.active ≠ none ∨ chunk = none) ∧ chunks = state.loop.chunks))
      (positive : 0 < state.loop.activeRequestWindow → 0 < window) :
      WindowMove prims outputDir peerAvailable requestWindow state .complete
        { state with
          loop := {
            todo := state.loop.todo
            inFlight := state.loop.inFlight
            activeRequestWindow := window
            chunksSinceWindowGrowth := since
            chunks
            completed := state.loop.completed.insert index }
          phase := .running }
  | finish (running : state.phase = .running) (full : state.loop.next peerAvailable = none)
      (empty : state.loop.inFlight.isEmpty = true) :
      WindowMove prims outputDir peerAvailable requestWindow state .finish
        { state with phase := .ended (.ok ()) }

/-- Widening the window changes the window and its counter only. -/
theorem maybeGrowRequestWindow_eq (maxRequestWindow : Nat) (positive : 0 < maxRequestWindow)
    (loop : WindowLoop) :
    ∃ window since, (0 < loop.activeRequestWindow → 0 < window) ∧
      maybeGrowRequestWindow maxRequestWindow loop =
        { loop with activeRequestWindow := window, chunksSinceWindowGrowth := since } := by
  unfold maybeGrowRequestWindow
  split
  · exact ⟨_, _, id, rfl⟩
  · split
    · exact ⟨_, _, id, rfl⟩
    · exact ⟨_, _, fun wide => by omega, rfl⟩

/-- The inner loop takes the next entry exactly when there is room and an entry left. -/
theorem next_eq_some {loop after : WindowLoop} {request : Option UInt32}
    (turn : loop.next peerAvailable = some (request, after)) :
    ∃ entry rest, loop.inFlight.size < loop.activeRequestWindow ∧ loop.todo = entry :: rest ∧
      ((request = none ∧ (entry.index ∈ loop.completed ∨ entry.index ∉ peerAvailable) ∧
          after = { loop with todo := rest }) ∨
        (request = some entry.index ∧ entry.index ∉ loop.completed ∧
          entry.index ∈ peerAvailable ∧
          after = { loop with
            todo := rest, inFlight := loop.inFlight.insert entry.index entry })) := by
  unfold WindowLoop.next at turn
  split at turn
  · rename_i room
    split at turn
    · cases turn
    · rename_i entry rest here
      refine ⟨entry, rest, room, here, ?_⟩
      split at turn
      · rename_i needless
        obtain ⟨rfl, rfl⟩ : none = request ∧ { loop with todo := rest } = after := by
          simpa using turn
        refine .inl ⟨rfl, ?_, rfl⟩
        simpa [← TreeSet.contains_iff_mem] using needless
      · rename_i needed
        obtain ⟨rfl, rfl⟩ : some entry.index = request ∧ _ = after := by simpa using turn
        simp only [Bool.or_eq_true, Bool.not_eq_true', not_or, Bool.not_eq_false,
          TreeSet.contains_iff_mem] at needed
        exact .inr ⟨rfl, needed.1, needed.2, rfl⟩
  · cases turn

/-- A loop with room in its window and no next turn has nothing left to request. -/
theorem todo_eq_nil_of_next_eq_none {loop : WindowLoop}
    (window : 0 < loop.activeRequestWindow) (empty : loop.inFlight.isEmpty = true)
    (full : loop.next peerAvailable = none) : loop.todo = [] := by
  have size : loop.inFlight.size = 0 := by simpa [TreeMap.isEmpty_eq_size_eq_zero] using empty
  unfold WindowLoop.next at full
  rw [if_pos (by omega)] at full
  split at full
  · assumption
  · split at full <;> cases full

/-- A reply is only stored when it answers a request in flight. -/
theorem mem_inFlight_of_takeInFlight {inFlight : TreeMap UInt32 ChunkMeta} {index : UInt32}
    {entry : ChunkMeta} (taken : takeInFlight inFlight index = .ok entry) : index ∈ inFlight := by
  unfold takeInFlight at taken
  split at taken
  · rename_i found
    exact TreeMap.mem_iff_isSome_getElem?.mpr (by simp [found])
  · cases taken

/-- Every successful step is one of the listed moves. -/
theorem windowMove_of_step {state next : WindowedDownload} {event : WindowEvent}
    (step : (downloadMissingChunksWindowed prims outputDir peerAvailable requestWindow).step state
      event = some next) :
    WindowMove prims outputDir peerAvailable requestWindow state event next := by
  cases event with
  | request failure =>
      simp only [downloadMissingChunksWindowed, requestNext] at step
      split at step
      · rename_i running turn
        obtain rfl := Option.some.inj step
        obtain ⟨entry, rest, room, here, ⟨-, needless, rfl⟩ | ⟨impossible, -⟩⟩ := next_eq_some turn
        · exact .skip running room here needless
        · cases impossible
      · rename_i running turn
        obtain ⟨entry, rest, room, here, ⟨impossible, -⟩ | ⟨-, missing, has, rfl⟩⟩ :=
          next_eq_some turn
        · cases impossible
        · split at step <;> obtain rfl := Option.some.inj step
          · exact .send running room here missing has
          · exact .sendFails running rfl
      · cases step
  | receive reply stagingTimestamp =>
      simp only [downloadMissingChunksWindowed, receiveNext] at step
      split at step
      · rename_i running full
        split at step
        · cases step
        · rename_i waiting
          have waiting : state.loop.inFlight.isEmpty = false := by simpa using waiting
          cases active : state.session.active with
          | none =>
              simp only [WindowedDownload.streamingToLibrary, active, Option.isSome_none,
                Bool.false_eq_true, if_false] at step
              split at step <;> obtain rfl := Option.some.inj step
              · exact .receiveMessageFails running full waiting active ‹_›
              · exact .receiveMessage running full waiting active ‹_›
          | some library =>
              simp only [WindowedDownload.streamingToLibrary, active, Option.isSome_some, if_true,
                downloadChunkTempPath, activeDownloadState, bind, Except.bind, pure,
                Except.pure] at step
              split at step <;> obtain rfl := Option.some.inj step
              · exact .receive running full waiting active ‹_›
              · exact .receiveFails running full waiting active ‹_›
      · cases step
  | persist elapsed =>
      simp only [downloadMissingChunksWindowed, persistNext] at step
      split at step
      · split at step <;> obtain rfl := Option.some.inj step
        · exact .persist ‹_› ‹_›
        · exact .persistFails ‹_› ‹_›
      · cases step
  | complete =>
      simp only [downloadMissingChunksWindowed, completeNext] at step
      split at step
      · rename_i index chunk persisted
        obtain rfl := Option.some.inj step
        obtain ⟨window, since, positive, grown⟩ := maybeGrowRequestWindow_eq (max requestWindow 1)
          (by omega) _
        rw [grown]
        refine .complete persisted ?_ positive
        cases active : state.session.active <;> cases chunk <;>
          simp [WindowedDownload.streamingToLibrary, active]
      · cases step
  | finish =>
      simp only [downloadMissingChunksWindowed, finishLoop] at step
      split at step
      · split at step
        · obtain rfl := Option.some.inj step
          exact .finish ‹_› ‹_› ‹_›
        · cases step
      · cases step

end

end Etle
