import Etle.Ipc.Message

/-!
# Events of the local daemon

What the daemon tells every client that has subscribed, while it works.
-/

namespace Etle

/-- The events of the daemon. -/
inductive IpcEvent where
  | serverStarted (listen : SocketAddr)
  | serverStopped
  | shareUpdated (share : IpcShareSummary)
  | shareDeleted (shareId : ShareId)
  | peerConnected (peerId : String)
  | chunkCompleted (shareId : ShareId) (completedChunks totalChunks : Nat)
  | taskProgress (jobId : Option String) (task label : String) (completedChunks totalChunks : Nat)
      (bytesDone totalBytes bytesPerSecond : UInt64)
  | transferProgress (jobId : Option String) (shareId : ShareId) (completedChunks totalChunks : Nat)
      (bytesDone totalBytes bytesPerSecond : UInt64)
  | transferCompleted (jobId : Option String) (shareId : ShareId) (output : String)
  | error (message : String)
  deriving DecidableEq

end Etle
