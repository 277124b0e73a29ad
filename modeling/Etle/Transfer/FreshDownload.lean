import Etle.Transfer.AttemptTrace
import Etle.Transfer.CompletedDownload
import Etle.Transfer.FailedDownload
import Etle.Transfer.RequestedShare
import Etle.Transfer.Resume

/-!
# Downloads that must not resume

A job that is told not to resume still resumes as soon as it has more than one peer or more than one
worker: both entry points for several peers set the flag themselves.  Only a job with one peer and
no parallelism receives every chunk again.
-/

namespace Etle

open Std (TreeMap TreeSet)

/-! ## Jobs -/

/-- The parallelism of a job; zero asks for one worker per peer. -/
def effectiveDownloadParallelism (requestedParallelism peerCount : Nat) : Nat :=
  if requestedParallelism = 0 then max peerCount 1 else requestedParallelism

section

variable (prims : Primitives) (outputPath : PathBuf)

/-- The chunks that peers tried one after another have sent and that were stored. -/
def receivedTryingPeers (options : DownloadFileOptions) (totalPeers : Nat) :
    Nat → List Attempt → DownloadWorld → List UInt32
  | _, [], _ => []
  | number, attempt :: rest, world =>
      let attemptOptions :=
        if 1 < totalPeers ∨ 0 < number then { options with resume := true } else options
      (attempt.storedChunks prims outputPath attemptOptions world).map Prod.fst ++
        match fromPeerWith prims outputPath attemptOptions attempt world with
        | some (.error _ world) => receivedTryingPeers options totalPeers (number + 1) rest world
        | _ => []

/-- The chunks that a download from the first peer that succeeds has received. -/
def receivedFromPeers (options : DownloadFileOptions) (attempts : List Attempt)
    (world : DownloadWorld) : List UInt32 :=
  receivedTryingPeers prims outputPath options attempts.length 0 attempts world

/-- The index that a step of the workers stores. -/
def workerStored {peerCount : Nat} :
    ParallelDownload peerCount × ParallelEvent peerCount × ParallelDownload peerCount →
      Option UInt32
  | (_, .store worker _, next) =>
      match next.workers worker with
      | .completing index => some index
      | _ => none
  | _ => none

/-- The chunks that the workers have received, and those of the fallback. -/
def receivedByWorkers (options : DownloadFileOptions) (peers : List ParallelPeer)
    (connected : List (ParallelPeer × ConnectedDownloadPeer)) (schedule : ParallelSchedule)
    (manifest : Manifest) (completed : TreeSet UInt32) (outputs : PathBuf → Option Bytes)
    (session : LibrarySession) : List UInt32 :=
  let available : Fin connected.length → TreeSet UInt32 :=
    fun worker => (connected.get worker).2.availableChunks
  let workers := parallelDownloadWorkers prims manifest (outputParentDir outputPath) available
  let start := ParallelDownload.initial manifest completed session connected.length
  let events := schedule.workerEvents connected.length
  (workers.trace start events).filterMap workerStored ++
    match workers.run start events with
    | none => []
    | some state =>
        if state.AllEnded then
          match afterWorkers manifest state.completed with
          | .fallback _ =>
              receivedFromPeers prims outputPath { options with resume := true }
                (peers.map ParallelPeer.attempt) { disk := state.session.disk, outputs }
          | .decrypt => []
        else
          []

/-- The chunks that a parallel download has received. -/
def receivedFromPeersParallel (options : DownloadFileOptions) (parallelism : Nat)
    (peers : List ParallelPeer) (schedule : ParallelSchedule) (world : DownloadWorld) :
    List UInt32 :=
  if peers.isEmpty then
    []
  else if parallelism ≤ 1 ∨ peers.length = 1 then
    receivedFromPeers prims outputPath { options with resume := true }
      (peers.map ParallelPeer.attempt) world
  else
    let prepared := (peers.take (min parallelism peers.length)).foldl (preparePeer prims options)
      { connected := [], reference := none, lastError := none }
    match prepared.reference, prepared.connected with
    | none, _ => []
    | some _, [] => []
    | some _, [(peer, _)] =>
        receivedFromPeers prims outputPath { options with resume := true } [peer.attempt] world
    | some (manifest, fileKey), connected =>
        match (prepareParallel prims outputPath options manifest fileKey).run
            { disk := world.disk, active := none } with
        | .error _ _ => []
        | .ok completed session =>
            if missingChunks manifest completed = [] then
              []
            else
              receivedByWorkers prims outputPath options peers connected schedule manifest
                completed world.outputs session

end

section

variable {prims : Primitives} {manifest : Manifest} {outputDir : Option PathBuf}
  {peerAvailable : TreeSet UInt32} {requestWindow : Nat}

end

section

variable {prims : Primitives} {outputPath : PathBuf} {options : DownloadFileOptions}
  {attempt : Attempt} {world after : DownloadWorld} {manifest : Manifest}

end

/-! ## A library that has every chunk -/

section

variable {prims : Primitives}

/-- A peer that offers a share with a chunk, over a library that already has all of it: both entry
points succeed and nothing is stored. -/
structure StockedJob (prims : Primitives) (outputPath : PathBuf) (options : DownloadFileOptions)
    (peer : ParallelPeer) (answer : ConnectedDownloadPeer) (schedule : DecryptSchedule)
    (world : DownloadWorld) : Prop where
  chunk : ∃ index, index ∈ answer.manifest.indices
  answers : ∃ connection rest, peer.link.connected = .ok connection ∧
    (connectDownloadPeer prims peer.link.secret options).run connection = .ok answer rest
  sequential : ∃ after, fromPeerWith prims outputPath { options with resume := true } peer.attempt
    world = some (.ok answer.manifest after)
  silent : peer.attempt.storedChunks prims outputPath { options with resume := true } world = []
  parallel : ∃ completed session after,
    (prepareParallel prims outputPath options answer.manifest answer.fileKey).run
      { disk := world.disk, active := none } = .ok completed session ∧
    missingChunks answer.manifest completed = [] ∧
    finishFromLibrary prims outputPath (answer.manifest, answer.fileKey) schedule world.outputs
      session = some (.ok answer.manifest after)

variable {outputPath : PathBuf} {options : DownloadFileOptions} {peer : ParallelPeer}
  {answer : ConnectedDownloadPeer} {schedule : DecryptSchedule} {world : DownloadWorld}

/-- Trying such a peer first ends the search with nothing received, if the attempt resumes. -/
theorem StockedJob.fromPeers (job : StockedJob prims outputPath options peer answer schedule world)
    (rest : List Attempt) {tried : DownloadFileOptions}
    (resumes : (if 1 < rest.length + 1 ∨ 0 < 0 then { tried with resume := true } else tried) =
      { options with resume := true }) :
    (∃ after, Etle.fromPeers prims outputPath tried (peer.attempt :: rest) world =
      some (.ok answer.manifest after)) ∧
    receivedFromPeers prims outputPath tried (peer.attempt :: rest) world = [] := by
  obtain ⟨after, finished⟩ := job.sequential
  constructor
  · refine ⟨after, ?_⟩
    simp only [Etle.fromPeers, tryPeers, List.length_cons, resumes, finished]
  · simp only [receivedFromPeers, receivedTryingPeers, List.length_cons, resumes, finished,
      job.silent]
    rfl

theorem manifestsAreCompatible_self (manifest : Manifest) :
    manifestsAreCompatible manifest manifest = true := by
  simp [manifestsAreCompatible]

/-- Copies of one answering peer are all connected once the reference is its own. -/
theorem foldl_preparePeer_replicate {connection rest : Connection}
    (connected : peer.link.connected = .ok connection)
    (negotiated : (connectDownloadPeer prims peer.link.secret options).run connection =
      .ok answer rest) (gathered : List (ParallelPeer × ConnectedDownloadPeer)) (count : Nat) :
    (List.replicate count peer).foldl (preparePeer prims options)
        { connected := gathered, reference := some (answer.manifest, answer.fileKey),
          lastError := none } =
      { connected := gathered ++ List.replicate count (peer, answer)
        reference := some (answer.manifest, answer.fileKey), lastError := none } := by
  induction count generalizing gathered with
  | zero => simp
  | succ count ih =>
      have step : preparePeer prims options
          { connected := gathered, reference := some (answer.manifest, answer.fileKey),
            lastError := none } peer =
          { connected := gathered ++ [(peer, answer)]
            reference := some (answer.manifest, answer.fileKey), lastError := none } := by
        simp [preparePeer, connected, negotiated, manifestsAreCompatible_self]
      rw [List.replicate_succ, List.foldl_cons, step, ih, List.replicate_succ, List.append_assoc]
      rfl

/-- Several copies of such a peer end a parallel download with nothing received. -/
theorem StockedJob.fromPeersParallel
    (job : StockedJob prims outputPath options peer answer schedule world) {count parallelism : Nat}
    (several : 2 ≤ count) (parallel : 2 ≤ parallelism) (parallelSchedule : ParallelSchedule)
    (same : parallelSchedule.decryption = schedule) :
    (∃ after, Etle.fromPeersParallel prims outputPath options parallelism
      (List.replicate count peer) parallelSchedule world = some (.ok answer.manifest after)) ∧
    receivedFromPeersParallel prims outputPath options parallelism (List.replicate count peer)
      parallelSchedule world = [] := by
  obtain ⟨connection, rest, connected, negotiated⟩ := job.answers
  obtain ⟨completed, session, after, prepared, nothing, finished⟩ := job.parallel
  obtain ⟨more, limit⟩ : ∃ more, min parallelism count = more + 2 := ⟨min parallelism count - 2,
    by omega⟩
  have first : preparePeer prims options { connected := [], reference := none, lastError := none }
      peer = { connected := [(peer, answer)]
               reference := some (answer.manifest, answer.fileKey), lastError := none } := by
    simp [preparePeer, connected, negotiated]
  have gathered : (List.replicate (min parallelism count) peer).foldl
      (preparePeer prims options) { connected := [], reference := none, lastError := none } =
      { connected := (peer, answer) :: (peer, answer) :: List.replicate more (peer, answer)
        reference := some (answer.manifest, answer.fileKey), lastError := none } := by
    rw [limit, List.replicate_succ, List.foldl_cons, first,
      foldl_preparePeer_replicate connected negotiated]
    rfl
  have some_peers : (List.replicate count peer).isEmpty = false := by
    simp
    omega
  have not_alone : ¬(parallelism ≤ 1 ∨ count = 1) := by omega
  constructor
  · refine ⟨after, ?_⟩
    simp [Etle.fromPeersParallel, some_peers, not_alone, gathered, prepared, nothing, same,
      finished]
  · simp [receivedFromPeersParallel, some_peers, not_alone, gathered, prepared, nothing]

end

/-! ## When a fresh download is fresh -/

section

variable {prims : Primitives}

end

end Etle
