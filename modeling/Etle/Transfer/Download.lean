import Etle.Network.KeyExchange
import Etle.Transfer.ParallelDownload
import Etle.Transfer.Reconstruct
import Etle.Transfer.WindowLoop

/-!
# Downloading a share

The three entry points: from one peer, from peers tried one after another, and from peers in
parallel.  What the network, the clock and the scheduler do in a call is an argument: how the peer
answers the negotiation, the events of the chunk loop and those of the parallel reconstruction.  A
call has no result when the given events do not take its loops to their end.
-/

namespace Etle

open Std (TreeMap TreeSet)

/-- The options of a download. -/
structure DownloadFileOptions where
  peerId : String
  libraryRoot : Option PathBuf
  resume : Bool
  requestedShareId : Option ShareId
  requestWindow : Nat
  authPsk : Option AuthPsk

/-! ## Negotiation -/

/-- What a peer has said about its share before the first chunk. -/
structure ConnectedDownloadPeer where
  manifest : Manifest
  fileKey : SymmetricKey
  availableChunks : TreeSet UInt32

/-- Name the share, unless the caller has none in mind. -/
def sendRequestedShareIfNeeded : Option ShareId → OnStream Unit
  | none => return
  | some shareId => send (.requestShare shareId)

/-- Receive the manifest. -/
def receiveManifest : OnStream Manifest :=
  receiveExpected "Manifest" fun
    | .manifest manifest => some manifest
    | _ => none

/-- Receive the wrapped file key. -/
def receiveWrappedFileKey : OnStream WrappedFileKey :=
  receiveExpected "WrappedFileKey" fun
    | .wrappedFileKey nonce data => some { nonce, data }
    | _ => none

/-- Receive the chunks the peer has. -/
def receivePeerAvailability : OnStream (TreeSet UInt32) := do
  match ← receive with
  | .have chunks => return chunks.foldl (fun set index => set.insert index) ∅
  | .error message => throw (.peerError message)
  | actual => throw (.unexpectedMessage "Have" actual)

/-- Handshake, key exchange, and what the peer says about its share. -/
def connectDownloadPeer (prims : Primitives) (secret : Bytes32) (options : DownloadFileOptions) :
    OnStream ConnectedDownloadPeer := do
  let _ ← clientProtocolHandshake options.peerId
  let sessionKey ← clientTransferSessionKeyExchange prims secret options.authPsk
  sendRequestedShareIfNeeded options.requestedShareId
  let manifest ← receiveManifest
  let wrapped ← receiveWrappedFileKey
  let fileKey ← EStateM.liftExcept .crypto
    (unwrapFileKey prims sessionKey manifest.fileId wrapped)
  let availableChunks ← receivePeerAvailability
  return { manifest, fileKey, availableChunks }

/-! ## Output -/

/-- The libraries and the files outside them. -/
structure DownloadWorld where
  disk : Disk
  outputs : PathBuf → Option Bytes

/-- The directory of the output, unless it is the working directory. -/
def outputParentDir (outputPath : PathBuf) : Option PathBuf :=
  match outputPath.dropLast with
  | [] => none
  | parent => some parent

/-- The parallelism the system reports and the events of a parallel reconstruction. -/
structure DecryptSchedule where
  availableParallelism : Option Nat
  events : (workerCount : Nat) → List (ReconstructEvent workerCount)

/-- The number of decryption workers for a number of chunks. -/
def defaultDecryptWorkerCount (availableParallelism : Option Nat) (totalChunks : Nat) : Nat :=
  if totalChunks ≤ 1 then 1 else min (min (availableParallelism.getD 2) 4) totalChunks

/-- The bytes written to the output and the outcome of reconstructing it from the library. -/
def decryptLibraryChunksToFile (prims : Primitives) (disk : Disk) (paths : LibraryPaths)
    (manifest : Manifest) (fileKey : SymmetricKey) (schedule : DecryptSchedule) :
    Option (Bytes × Except NetworkError Unit) :=
  let workerCount := defaultDecryptWorkerCount schedule.availableParallelism manifest.chunks.length
  if workerCount ≤ 1 then
    some (decryptLibraryChunksToFileSequential prims disk paths manifest fileKey)
  else
    match (decryptLibraryChunksToFileParallel prims disk paths manifest fileKey workerCount).run
        (.initial manifest workerCount) (schedule.events workerCount) with
    | some { consumer := .returned written outcome, .. } => some (written, outcome)
    | _ => none

/-- Verify and decrypt the chunks of a manifest that are in memory. -/
def decryptChunks (prims : Primitives) (fileId : FileId)
    (chunks : TreeMap UInt32 EncryptedChunk) (fileKey : SymmetricKey) :
    List ChunkMeta → Except FileError (List DecryptedChunk)
  | [] => .ok []
  | entry :: rest =>
      match chunks[entry.index]? with
      | none => .error (.missingChunk entry.index)
      | some chunk =>
          if hashChunk prims chunk.data ≠ entry.blake3Hash then
            .error (.chunkHashMismatch entry.index)
          else
            match decryptChunk prims fileKey entry.nonce chunk.data
                (buildChunkAad fileId entry.index entry.plainSize) with
            | .error failure => .error (.crypto failure)
            | .ok data => do
                let later ← decryptChunks prims fileId chunks fileKey rest
                return { index := entry.index, data } :: later

/-- The bytes of a chunk that is kept in memory. -/
def bytesAt (chunks : TreeMap UInt32 EncryptedChunk) (index : UInt32) : Option Bytes :=
  chunks[index]?.map EncryptedChunk.data

/-- The bytes of the chunks in the order of their indices. -/
def joinChunks (chunks : List DecryptedChunk) : Bytes :=
  (chunks.insertionSort fun left right => left.index ≤ right.index).flatMap DecryptedChunk.data

/-- Decrypt a file whose chunks are in memory, and check its hash. -/
def decryptToBytes (prims : Primitives) (manifest : Manifest)
    (chunks : TreeMap UInt32 EncryptedChunk) (fileKey : SymmetricKey) : Except FileError Bytes := do
  let plain ← decryptChunks prims manifest.fileId chunks fileKey manifest.chunks
  if hashFileId prims (joinChunks plain) ≠ manifest.fileId then
    throw .finalHashMismatch
  else
    return joinChunks plain

/-! ## One peer -/

/-- How a peer answers one connection: the connection, or the error of connecting, and the
ephemeral secret drawn for it. -/
structure PeerLink where
  connected : Except ErrorKind Connection
  secret : Bytes32

/-- One attempt at a peer: its answers, the events of the chunk loop with the replies in them, and
those of the reconstruction. -/
structure Attempt where
  link : PeerLink
  windowEvents : List WindowEvent
  decryption : DecryptSchedule

/-- The result of a call and the files after it. -/
abbrev DownloadResult := EStateM.Result NetworkError DownloadWorld Manifest

/-- Open the library and find what need not be fetched again. -/
def prepareDownload (prims : Primitives) (options : DownloadFileOptions)
    (outputDir : Option PathBuf) (peer : ConnectedDownloadPeer) :
    OnLibrary (TreeSet UInt32 × TreeMap UInt32 EncryptedChunk) := do
  let active ← onDisk (initializeDownloadLibraryState prims options.libraryRoot
    (descriptorFromManifest prims peer.manifest) peer.fileKey outputDir options.resume)
  modify fun session => { session with active }
  if active.isSome then
    let completed ← loadResumableChunkIndexes prims peer.manifest outputDir
    return (completed, ∅)
  else
    let chunks ← loadResumableChunks prims peer.manifest outputDir
    return (chunks.keys.foldl (fun set index => set.insert index) ∅, chunks)

/-- Tell the peer which chunks are already here. -/
def announceCompleted (completed : TreeSet UInt32) : OnStream Unit :=
  if completed.isEmpty then return else send (.have completed.toList)

/-- The first chunk that is still missing, looked for only when the counts differ. -/
def firstMissing (manifest : Manifest) (completed : TreeSet UInt32) : Option UInt32 :=
  if completed.size ≠ manifest.chunks.length then
    (manifest.chunks.find? fun entry => !completed.contains entry.index).map ChunkMeta.index
  else
    none

section Calls

variable (prims : Primitives) (outputPath : PathBuf)

/-- Reconstruct the output from the library and set the share to completed. -/
def finishFromLibrary (peer : Manifest × SymmetricKey) (schedule : DecryptSchedule)
    (outputs : PathBuf → Option Bytes) (session : LibrarySession) : Option DownloadResult :=
  match activeDownloadState session.active with
  | .error error => some (.error error { disk := session.disk, outputs })
  | .ok state =>
      match decryptLibraryChunksToFile prims session.disk state.paths peer.1 peer.2 schedule with
      | none => none
      | some (written, outcome) =>
          let outputs := Function.update outputs outputPath (some written)
          match outcome with
          | .error error => some (.error error { disk := session.disk, outputs })
          | .ok () =>
              match (markDownloadLibraryComplete (outputParentDir outputPath)).run session with
              | .error error session => some (.error error { disk := session.disk, outputs })
              | .ok () session => some (.ok peer.1 { disk := session.disk, outputs })

/-- Reconstruct the output from the chunks in memory. -/
def finishFromMemory (peer : Manifest × SymmetricKey) (chunks : TreeMap UInt32 EncryptedChunk)
    (outputs : PathBuf → Option Bytes) (session : LibrarySession) : DownloadResult :=
  match decryptToBytes prims peer.1 chunks peer.2 with
  | .error error => .error (.file error) { disk := session.disk, outputs }
  | .ok written =>
      .ok peer.1
        { disk := session.disk, outputs := Function.update outputs outputPath (some written) }

/-- What follows the chunk loop. -/
def finishDownload (peer : ConnectedDownloadPeer) (schedule : DecryptSchedule)
    (outputs : PathBuf → Option Bytes) (loop : WindowLoop) (session : LibrarySession) :
    Option DownloadResult :=
  match firstMissing peer.manifest loop.completed with
  | some index => some (.error (.missingEncryptedChunk index) { disk := session.disk, outputs })
  | none =>
      if session.active.isSome then
        finishFromLibrary prims outputPath (peer.manifest, peer.fileKey) schedule outputs session
      else
        some (finishFromMemory prims outputPath (peer.manifest, peer.fileKey) loop.chunks outputs
          session)

/-- What follows the negotiation. -/
def downloadFromPeer (options : DownloadFileOptions) (attempt : Attempt)
    (peer : ConnectedDownloadPeer) (connection : Connection) (world : DownloadWorld) :
    Option DownloadResult :=
  let outputDir := outputParentDir outputPath
  match (prepareDownload prims options outputDir peer).run
      { disk := world.disk, active := none } with
  | .error error session => some (.error error { world with disk := session.disk })
  | .ok (completed, chunks) session =>
      match (announceCompleted completed).run connection with
      | .error error _ => some (.error error { world with disk := session.disk })
      | .ok () _ =>
          match (downloadMissingChunksWindowed prims outputDir peer.availableChunks
              options.requestWindow).run
              (.initial peer.manifest completed chunks session options.requestWindow)
              attempt.windowEvents with
          | some { loop, session, phase := .ended (.ok ()) } =>
              finishDownload prims outputPath peer attempt.decryption world.outputs loop session
          | some { session, phase := .ended (.error error), .. } =>
              some (.error error { world with disk := session.disk })
          | _ => none

/-- Download from one peer. -/
def fromPeerWith (options : DownloadFileOptions) (attempt : Attempt) (world : DownloadWorld) :
    Option DownloadResult :=
  match attempt.link.connected with
  | .error kind => some (.error (.io kind) world)
  | .ok connection =>
      match (connectDownloadPeer prims attempt.link.secret options).run connection with
      | .error error _ => some (.error error world)
      | .ok peer connection =>
          downloadFromPeer prims outputPath options attempt peer connection world

/-! ## Several peers, one after another -/

/-- Try the remaining peers; the first success ends the search. -/
def tryPeers (options : DownloadFileOptions) (totalPeers : Nat) :
    Nat → Option NetworkError → List Attempt → DownloadWorld → Option DownloadResult
  | _, lastError, [], world =>
      some (.error (.allPeersFailed totalPeers
        (match lastError with
          | some error => .inr error
          | none => .inl "unknown error")) world)
  | number, _, attempt :: rest, world =>
      let attemptOptions :=
        if 1 < totalPeers ∨ 0 < number then { options with resume := true } else options
      match fromPeerWith prims outputPath attemptOptions attempt world with
      | none => none
      | some (.ok manifest world) => some (.ok manifest world)
      | some (.error error world) =>
          tryPeers options totalPeers (number + 1) (some error) rest world

/-- Download from the first peer that succeeds. -/
def fromPeers (options : DownloadFileOptions) (attempts : List Attempt) (world : DownloadWorld) :
    Option DownloadResult :=
  match attempts with
  | [] => some (.error .noPeersProvided world)
  | attempts => tryPeers prims outputPath options attempts.length 0 none attempts world

/-! ## Several peers in parallel -/

/-- A peer of a parallel download: how it answers the preparation, and how it answers if it is
tried again on its own. -/
structure ParallelPeer where
  link : PeerLink
  attempt : Attempt

/-- What the scheduler does in a parallel download. -/
structure ParallelSchedule where
  workerEvents : (peerCount : Nat) → List (ParallelEvent peerCount)
  decryption : DecryptSchedule

/-- Both manifests describe the same content. -/
def manifestsAreCompatible (left right : Manifest) : Bool :=
  left.fileId == right.fileId && left.fileName == right.fileName &&
    left.fileSize == right.fileSize && left.chunkSize == right.chunkSize &&
    left.chunks == right.chunks

/-- What the preparation of a parallel download has gathered so far. -/
structure PreparedPeers where
  connected : List (ParallelPeer × ConnectedDownloadPeer)
  reference : Option (Manifest × SymmetricKey)
  lastError : Option NetworkError

/-- Prepare one peer: the first one sets the reference, the others must match it. -/
def preparePeer (options : DownloadFileOptions) (prepared : PreparedPeers) (peer : ParallelPeer) :
    PreparedPeers :=
  match peer.link.connected with
  | .error kind => { prepared with lastError := some (.io kind) }
  | .ok connection =>
      match (connectDownloadPeer prims peer.link.secret options).run connection with
      | .error error _ => { prepared with lastError := some error }
      | .ok answer _ =>
          match prepared.reference with
          | none =>
              { prepared with
                connected := prepared.connected ++ [(peer, answer)]
                reference := some (answer.manifest, answer.fileKey) }
          | some (manifest, fileKey) =>
              if manifestsAreCompatible manifest answer.manifest && answer.fileKey == fileKey then
                { prepared with connected := prepared.connected ++ [(peer, answer)] }
              else
                prepared

/-- The failure of a preparation without a usable peer. -/
def preparationFailed (prepared : PreparedPeers) (workerLimit : Nat) : NetworkError :=
  .allPeersFailed workerLimit
    (match prepared.lastError with
      | some error => .inr error
      | none => .inl "no compatible peer prepared")

/-- Open the library for a parallel download, which must have one. -/
def prepareParallel (options : DownloadFileOptions) (manifest : Manifest)
    (fileKey : SymmetricKey) : OnLibrary (TreeSet UInt32) := do
  let outputDir := outputParentDir outputPath
  let active ← onDisk (initializeDownloadLibraryState prims options.libraryRoot
    (descriptorFromManifest prims manifest) fileKey outputDir true)
  modify fun session => { session with active }
  if active.isNone then
    throw (.peerError "parallel streaming download requires a library root")
  else
    loadResumableChunkIndexes prims manifest outputDir

instance ParallelDownload.decidableAllEnded {peerCount : Nat} (state : ParallelDownload peerCount) :
    Decidable state.AllEnded :=
  decidable_of_iff (∀ worker, (match state.workers worker with
    | .ended _ => true
    | _ => false) = true) <| by
    refine forall_congr' fun worker => ?_
    cases state.workers worker <;> simp

/-- Fetch the missing chunks with one worker per peer, then decrypt or fall back. -/
def runParallelWorkers (options : DownloadFileOptions) (peers : List ParallelPeer)
    (connected : List (ParallelPeer × ConnectedDownloadPeer)) (schedule : ParallelSchedule)
    (peer : Manifest × SymmetricKey) (completed : TreeSet UInt32)
    (outputs : PathBuf → Option Bytes) (session : LibrarySession) : Option DownloadResult :=
  let available : Fin connected.length → TreeSet UInt32 :=
    fun worker => (connected.get worker).2.availableChunks
  match (parallelDownloadWorkers prims peer.1 (outputParentDir outputPath) available).run
      (.initial peer.1 completed session connected.length)
      (schedule.workerEvents connected.length) with
  | none => none
  | some state =>
      if state.AllEnded then
        match afterWorkers peer.1 state.completed with
        | .fallback _ =>
            fromPeers prims outputPath { options with resume := true }
              (peers.map ParallelPeer.attempt) { disk := state.session.disk, outputs }
        | .decrypt =>
            finishFromLibrary prims outputPath peer schedule.decryption outputs state.session
      else
        none

/-- Download from several peers at once. -/
def fromPeersParallel (options : DownloadFileOptions) (parallelism : Nat)
    (peers : List ParallelPeer) (schedule : ParallelSchedule) (world : DownloadWorld) :
    Option DownloadResult :=
  if peers.isEmpty then
    some (.error .noPeersProvided world)
  else if parallelism ≤ 1 ∨ peers.length = 1 then
    fromPeers prims outputPath { options with resume := true } (peers.map ParallelPeer.attempt)
      world
  else
    let workerLimit := min parallelism peers.length
    let prepared := (peers.take workerLimit).foldl (preparePeer prims options)
      { connected := [], reference := none, lastError := none }
    match prepared.reference, prepared.connected with
    | none, _ => some (.error (preparationFailed prepared workerLimit) world)
    | some _, [] => some (.error (preparationFailed prepared workerLimit) world)
    | some _, [(peer, _)] =>
        fromPeers prims outputPath { options with resume := true } [peer.attempt] world
    | some (manifest, fileKey), connected =>
        match (prepareParallel prims outputPath options manifest fileKey).run
            { disk := world.disk, active := none } with
        | .error error session => some (.error error { world with disk := session.disk })
        | .ok completed session =>
            if missingChunks manifest completed = [] then
              finishFromLibrary prims outputPath (manifest, fileKey) schedule.decryption
                world.outputs session
            else
              runParallelWorkers prims outputPath options peers connected schedule
                (manifest, fileKey) completed world.outputs session

end Calls

end Etle
