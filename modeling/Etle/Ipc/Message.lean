import Etle.State.Model

/-!
# Messages of the local daemon

Clients on the same machine send one command for each connection and receive one response.  Paths
travel as their text.
-/

namespace Etle

/-- An address of a peer. -/
inductive SocketAddr where
  | v4 (octets : Vector UInt8 4) (port : UInt16)
  | v6 (octets : Vector UInt8 16) (port : UInt16)
  deriving DecidableEq

/-- What a client asks of a download. -/
structure DownloadRequest where
  shareId : ShareId
  peers : List SocketAddr
  output : Option String
  parallelism : Nat
  requestWindow : Nat
  discoveryPort : UInt16
  discoveryTimeoutMs : UInt64
  discoveryMulticast : Vector UInt8 4
  authPsk : Option String
  deriving DecidableEq

/-- The commands of the daemon. -/
inductive IpcCommand where
  | ping
  | listShares
  | seedFile (input : String) (chunkSize : Nat)
  | startServing (listen : SocketAddr)
  | stopServing
  | deleteShare (shareId : ShareId)
  | download (request : DownloadRequest)
  | downloadFresh (request : DownloadRequest)
  | pause (shareId : ShareId)
  | resume (shareId : ShareId)
  | subscribeEvents
  | shutdown
  deriving DecidableEq

/-- A share as the daemon lists it. -/
structure IpcShareSummary where
  shareId : ShareId
  name : String
  completedChunks : Nat
  totalChunks : Nat
  hasSecret : Bool
  mode : Option String
  deriving DecidableEq

/-- The responses of the daemon. -/
inductive IpcResponse where
  | pong
  | ack (message : String)
  | shares (shares : List IpcShareSummary)
  | shareAdded (share : IpcShareSummary)
  | shareDeleted (shareId : ShareId) (name : String)
  | transferQueued (shareId : ShareId) (jobId : String)
  | transferCompleted (shareId : ShareId) (output fileName : String) (fileSize : UInt64)
      (chunks : Nat)
  | error (message : String)
  deriving DecidableEq

/-- Failures of the daemon's local connection. -/
inductive IpcError where
  | io (kind : ErrorKind)
  | encode
  | decode
  | emptyFrame
  | frameTooLarge (len max : Nat)
  | trailingBytes (bytesRead frameLen : Nat)
  deriving DecidableEq

end Etle
