import Etle.File.Descriptor

/-!
# Wire messages, frames and errors

A peer answers with frames: an encoded message, a raw chunk frame, a raw chunk frame cut off by a
closed connection, or bytes that the codec rejects.  The end of the list of frames is the end of
the stream.
-/

namespace Etle

/-- A path as the list of its components; the root directory is a component of its own. -/
abbrev PathBuf := List String

/-- The kinds of operating-system errors the program tells apart. -/
inductive ErrorKind where
  | unexpectedEof
  | connectionReset
  | brokenPipe
  | connectionRefused
  | connectionAborted
  | notConnected
  | notFound
  | other
  deriving DecidableEq

/-- The messages of the peer-to-peer protocol. -/
inductive WireMessage where
  | hello (peerId : String)
  | capabilities (protocolVersion : UInt16) (features : List String)
  | keyExchange (publicKey : PublicKeyBytes)
  | authProof (tag : AuthTag)
  | requestManifest
  | requestShare (shareId : ShareId)
  | manifest (manifest : Manifest)
  | wrappedFileKey (nonce : Nonce) (data : Bytes)
  | have (chunks : List UInt32)
  | requestChunk (index : UInt32)
  | chunk (index : UInt32) (data : Bytes)
  | error (message : String)
  deriving DecidableEq

/-- Failures of the frame codec. -/
inductive ProtocolError where
  | io (kind : ErrorKind)
  | encode
  | decode
  | emptyFrame
  | frameTooLarge (len max : Nat)
  | frameTooSmall (len min : Nat)
  | rawChunkSizeMismatch (expected actual : Nat)
  | trailingBytes (bytesRead frameLen : Nat)
  | invalidRawChunkFrame (reason : String)
  deriving DecidableEq

/-- Failures of the file and library layer. -/
inductive FileError where
  | io (kind : ErrorKind)
  | crypto (error : CryptoError)
  | encode
  | decode
  | invalidChunkSize (size : Nat)
  | tooManyChunks
  | packageTooLarge
  | missingChunk (index : UInt32)
  | chunkHashMismatch (index : UInt32)
  | chunkSizeMismatch (index : UInt32) (expected actual : UInt64)
  | invalidPackageInput (path : PathBuf)
  | pathOutsideRoot (path root : PathBuf)
  | emptyPackage
  | shareIdMismatch (expected actual : ShareId)
  | finalHashMismatch
  deriving DecidableEq

/-- Failures of the transfer layer.  `allPeersFailed` keeps the last error itself where the program
keeps its rendered text. -/
inductive NetworkError where
  | io (kind : ErrorKind)
  | protocol (error : ProtocolError)
  | crypto (error : CryptoError)
  | file (error : FileError)
  | unexpectedMessage (expected : String) (actual : WireMessage)
  | peerAuthenticationFailed
  | missingEncryptedChunk (index : UInt32)
  | unexpectedChunkIndex (expected actual : UInt32)
  | unsupportedMultiFileDescriptor (files : Nat)
  | noPeersProvided
  | allPeersFailed (attempts : Nat) (lastError : String ⊕ NetworkError)
  | unsupportedProtocolVersion (peer supported : UInt16)
  | missingPeerCapability (capability : String)
  | peerError (message : String)

/-- What one frame of a peer amounts to. -/
inductive Frame where
  /-- A frame that decodes to a message. -/
  | encoded (message : WireMessage)
  /-- A complete raw chunk frame. -/
  | raw (index : UInt32) (data : Bytes)
  /-- A raw chunk frame whose connection closes after the given bytes. -/
  | cut (index : UInt32) (received : Bytes)
  /-- A frame the codec rejects. -/
  | invalid (error : ProtocolError)
  deriving DecidableEq

/-- The largest frame the codec accepts. -/
def maxFrameSize : Nat := 64 * 1024 * 1024

/-- The protocol version both ends must speak. -/
def etleWireProtocolVersion : UInt16 := 3

/-- The capability of raw chunk frames. -/
def capabilityRawChunkFrame : String := "raw-chunk-frame-v1"

/-- The capability of several requests in flight. -/
def capabilityWindowedRequests : String := "windowed-requests-v1"

/-- Read one frame as a message; a raw chunk frame is a chunk message. -/
def receiveFrame : List Frame → Except ProtocolError (WireMessage × List Frame)
  | [] => .error (.io .unexpectedEof)
  | .encoded message :: rest => .ok (message, rest)
  | .raw index data :: rest => .ok (.chunk index data, rest)
  | .cut _ _ :: _ => .error (.io .unexpectedEof)
  | .invalid error :: _ => .error error

end Etle
