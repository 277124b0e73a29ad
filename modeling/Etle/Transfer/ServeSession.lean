import Etle.Network.KeyExchange
import Etle.Transfer.Serve

/-!
# A serving session

A server answers the handshake and the key exchange, loads the share, offers it and then serves its
chunks.  The session for one share and the session for a whole library differ in when the share is
chosen: the first loads it before the handshake, the second when the client has named it.
-/

namespace Etle

open Std (TreeSet)

/-- A share as a session has read it from the library. -/
structure LoadedShare where
  descriptor : EtleDescriptor
  fileKey : SymmetricKey
  manifest : Manifest
  availableChunks : List UInt32
  deriving DecidableEq

/-- Read what a session needs of a share. -/
def loadShare (prims : Primitives) (disk : Disk) (paths : LibraryPaths) :
    Except NetworkError LoadedShare := do
  let descriptor ← (readDescriptor prims disk paths).mapError .file
  let secret ← (readSecret disk paths).mapError .file
  let manifest ← manifestFromDescriptor descriptor
  return {
    descriptor, fileKey := secret.fileKey, manifest
    availableChunks := availableChunkIndexes prims disk paths descriptor }

/-- A share whose descriptor and key are on disk is loaded with the manifest it came from. -/
theorem loadShare_of_values {prims : Primitives} {disk : Disk} {paths : LibraryPaths}
    {manifest : Manifest} {fileKey : SymmetricKey}
    (described : (disk paths).descriptor = .value (descriptorFromManifest prims manifest))
    (keyed : (disk paths).secret = .value { shareId := paths.shareId, fileKey })
    (owned : (descriptorFromManifest prims manifest).shareId = paths.shareId) :
    loadShare prims disk paths = .ok {
      descriptor := descriptorFromManifest prims manifest
      fileKey, manifest
      availableChunks :=
        availableChunkIndexes prims disk paths (descriptorFromManifest prims manifest) } := by
  have descriptor := readDescriptor_of_value described owned
    (verifyShareId_descriptorFromManifest prims manifest)
  have secret := readSecret_of_value keyed rfl
  simp [loadShare, descriptor, secret, manifestFromDescriptor_descriptorFromManifest,
    Except.mapError, bind, Except.bind, pure, Except.pure]

/-- The connection was closed by the peer. -/
def isPeerClosedProtocolError : ProtocolError → Bool
  | .io .unexpectedEof | .io .connectionReset | .io .brokenPipe => true
  | _ => false

/-- Send frames one after another. -/
def sendFrames : List Frame → OnStream Unit
  | [] => return
  | frame :: rest => do
      sendFrame frame
      sendFrames rest

/-- The chunk loop, which ends when every chunk is served or known, when the client is gone, or with
an error.  It receives the remaining frames of the connection one by one. -/
def serveChunks (share : ServedShare) : List Frame → TreeSet UInt32 → OnStream Unit
  | frames, servedOrKnown =>
      if servedOrKnown.size < share.descriptor.chunks.length then
        match frames with
        | [] => return
        | frame :: rest =>
            match receiveFrame [frame] with
            | .error error =>
                if isPeerClosedProtocolError error then return else throw (.protocol error)
            | .ok (message, _) => do
                modify fun connection => { connection with replies := rest }
                let (answers, servedOrKnown) ←
                  EStateM.liftExcept id (serveMessage share servedOrKnown message)
                sendFrames answers
                serveChunks share rest servedOrKnown
      else
        return
  termination_by structural frames => frames

section Sessions

variable (prims : Primitives) (disk : Disk) (libraryRoot : PathBuf) (secret : Bytes32)
  (nonce : Nonce) (seederId : String) (authPsk : Option AuthPsk)

/-- Offer a share to a client and serve its chunks. -/
def offerShare (paths : LibraryPaths) (loaded : LoadedShare) (sessionKey : SymmetricKey) :
    OnStream EtleDescriptor := do
  send (.manifest loaded.manifest)
  let wrapped ← EStateM.liftExcept .crypto
    (wrapFileKey prims sessionKey loaded.manifest.fileId loaded.fileKey nonce)
  send (.wrappedFileKey wrapped.nonce wrapped.data)
  send (.have loaded.availableChunks)
  serveChunks (.load prims disk paths loaded.descriptor) (← get).replies ∅
  return loaded.descriptor

/-- Receive the share the client asks for. -/
def receiveRequestedShare : OnStream ShareId :=
  receiveExpected "RequestShare" fun
    | .requestShare shareId => some shareId
    | _ => none

/-- A session over the whole library. -/
def libraryConnectedPeer : OnStream EtleDescriptor := do
  let _ ← serverProtocolHandshake seederId
  let sessionKey ← serverTransferSessionKeyExchange prims secret authPsk
  let shareId ← receiveRequestedShare
  let paths : LibraryPaths := { root := libraryRoot, shareId }
  let loaded ← EStateM.liftExcept id (loadShare prims disk paths)
  offerShare prims disk nonce paths loaded sessionKey

/-- A session for one share. -/
def shareConnectedPeer (shareId : ShareId) : OnStream EtleDescriptor := do
  let paths : LibraryPaths := { root := libraryRoot, shareId }
  let loaded ← EStateM.liftExcept id (loadShare prims disk paths)
  let _ ← serverProtocolHandshake seederId
  let sessionKey ← serverTransferSessionKeyExchange prims secret authPsk
  offerShare prims disk nonce paths loaded sessionKey

end Sessions

end Etle
