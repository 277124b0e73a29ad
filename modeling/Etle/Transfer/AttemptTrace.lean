import Etle.Transfer.DownloadRecords
import Etle.Transfer.Negotiation

/-!
# What an attempt asks for and what it stores

An attempt at a peer enters its chunk loop after the negotiation and after it has opened the
library.  The steps of this loop tell which chunks were requested and which were stored, and whether
the attempt then succeeds or not, the library is the one the loop has left.
-/

namespace Etle

open Std (TreeMap TreeSet)

/-- A step of the chunk loop. -/
abbrev LoopStep := WindowedDownload × WindowEvent × WindowedDownload

/-- The index that a step requests. -/
def LoopStep.requested (peerAvailable : TreeSet UInt32) : LoopStep → Option UInt32
  | (state, .request _, _) =>
      match state.phase, state.loop.next peerAvailable with
      | .running, some (request, _) => request
      | _, _ => none
  | _ => none

/-- The index that a step stores, and whether the flush interval was over. -/
def LoopStep.stored : LoopStep → Option (UInt32 × Bool)
  | (_, .persist elapsed, next) =>
      match next.phase with
      | .persisted index _ => some (index, elapsed)
      | _ => none
  | _ => none

/-- The index of the chunk file that a step moves into the library. -/
def LoopStep.persistedFile : LoopStep → Option UInt32
  | (_, .persist _, next) =>
      match next.phase with
      | .persisted index none => some index
      | _ => none
  | _ => none

section

variable (prims : Primitives) (outputPath : PathBuf) (options : DownloadFileOptions)
  (attempt : Attempt) (world : DownloadWorld)

/-- The peer that an attempt has reached and the state in which it enters its chunk loop. -/
def Attempt.enterLoop : Option (ConnectedDownloadPeer × WindowedDownload) :=
  match attempt.link.connected with
  | .error _ => none
  | .ok connection =>
      match (connectDownloadPeer prims attempt.link.secret options).run connection with
      | .error _ _ => none
      | .ok peer connection =>
          match (prepareDownload prims options (outputParentDir outputPath) peer).run
              { disk := world.disk, active := none } with
          | .error _ _ => none
          | .ok (completed, chunks) session =>
              match (announceCompleted completed).run connection with
              | .error _ _ => none
              | .ok () _ =>
                  some (peer,
                    .initial peer.manifest completed chunks session options.requestWindow)

/-- The steps that the loop of an attempt takes. -/
def Attempt.loopSteps : List LoopStep :=
  match attempt.enterLoop prims outputPath options world with
  | none => []
  | some (peer, start) =>
      (downloadMissingChunksWindowed prims (outputParentDir outputPath) peer.availableChunks
        options.requestWindow).trace start attempt.windowEvents

/-- The chunks an attempt requests. -/
def Attempt.requestedChunks : List UInt32 :=
  match attempt.enterLoop prims outputPath options world with
  | none => []
  | some (peer, _) =>
      (attempt.loopSteps prims outputPath options world).filterMap
        (LoopStep.requested peer.availableChunks)

/-- The chunks an attempt stores, each with whether the flush interval was over. -/
def Attempt.storedChunks : List (UInt32 × Bool) :=
  (attempt.loopSteps prims outputPath options world).filterMap LoopStep.stored

/-- The chunks whose files an attempt moves into the library. -/
def Attempt.persistedFiles : List UInt32 :=
  (attempt.loopSteps prims outputPath options world).filterMap LoopStep.persistedFile

end

section

variable {prims : Primitives} {outputPath : PathBuf} {options : DownloadFileOptions}
  {attempt : Attempt} {world : DownloadWorld}

/-- An attempt enters its loop exactly after a negotiation, an opened library and an
announcement. -/
theorem enterLoop_eq_some {peer : ConnectedDownloadPeer} {start : WindowedDownload} :
    attempt.enterLoop prims outputPath options world = some (peer, start) ↔
      ∃ connection answered announced completed chunks session,
        attempt.link.connected = .ok connection ∧
        (connectDownloadPeer prims attempt.link.secret options).run connection =
          .ok peer answered ∧
        (prepareDownload prims options (outputParentDir outputPath) peer).run
          { disk := world.disk, active := none } = .ok (completed, chunks) session ∧
        (announceCompleted completed).run answered = .ok () announced ∧
        start = .initial peer.manifest completed chunks session options.requestWindow := by
  unfold Attempt.enterLoop
  constructor
  · intro entered
    split at entered
    · cases entered
    · rename_i connection connected
      split at entered
      · cases entered
      · rename_i other answered negotiated
        split at entered
        · cases entered
        · rename_i completed chunks session prepared
          split at entered
          · cases entered
          · rename_i announced sent
            obtain ⟨rfl, rfl⟩ := by simpa using entered
            exact ⟨connection, answered, announced, completed, chunks, session, connected,
              negotiated, prepared, sent, rfl⟩
  · rintro ⟨connection, answered, announced, completed, chunks, session, connected, negotiated,
      prepared, sent, rfl⟩
    simp [connected, negotiated, prepared, sent]

/-- An attempt that enters its loop is what the loop and its end make of it. -/
theorem fromPeerWith_of_enterLoop {peer : ConnectedDownloadPeer} {start : WindowedDownload}
    (entered : attempt.enterLoop prims outputPath options world = some (peer, start)) :
    fromPeerWith prims outputPath options attempt world =
      match (downloadMissingChunksWindowed prims (outputParentDir outputPath)
          peer.availableChunks options.requestWindow).run start attempt.windowEvents with
      | some { loop, session, phase := .ended (.ok ()) } =>
          finishDownload prims outputPath peer attempt.decryption world.outputs loop session
      | some { session, phase := .ended (.error error), .. } =>
          some (.error error { world with disk := session.disk })
      | _ => none := by
  obtain ⟨connection, answered, announced, completed, chunks, session, connected, negotiated,
    prepared, sent, rfl⟩ := enterLoop_eq_some.mp entered
  have loops := fromPeerWith.eq_1 prims outputPath options attempt world
  simp only [connected, negotiated, downloadFromPeer, prepared, sent] at loops
  exact loops

end

end Etle
