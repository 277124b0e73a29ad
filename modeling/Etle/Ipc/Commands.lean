import Etle.Ipc.Message
import Etle.State.Listing

/-!
# Answering commands

A command is answered from what the library holds at that moment.  Seeding and downloading are only
queued: their tasks run beside the loop that answers, and change the library at any time.
-/

namespace Etle

/-- What the daemon finds while it answers one command. -/
structure DaemonView where
  /-- What listing the library returns. -/
  listed : Except FileError (List LocalShareSummary)
  /-- What deleting a share directory returns: whether it was there. -/
  deleted : Except FileError Bool
  /-- The text of a file error. -/
  describe : FileError → String
  /-- Milliseconds since the epoch. -/
  millis : Nat
  processId : Nat

/-- The name of a mode. -/
def formatShareMode : ShareMode → String
  | .seeding => "seeding"
  | .downloading => "downloading"
  | .completed => "completed"
  | .paused => "paused"

/-- Summarise a share of the library. -/
def ipcShareSummaryFromLocal (share : LocalShareSummary) : IpcShareSummary where
  shareId := share.descriptor.shareId
  name := share.descriptor.name
  completedChunks := (share.progress.map fun progress => progress.completedChunks.length).getD 0
  totalChunks := share.descriptor.chunks.length
  hasSecret := share.hasSecret
  mode := share.state.map fun state => formatShareMode state.mode

/-- List the library. -/
def listSharesResponse (view : DaemonView) : IpcResponse :=
  match view.listed with
  | .ok shares => .shares (shares.map ipcShareSummaryFromLocal)
  | .error error => .error (view.describe error)

/-- Find one share of the library. -/
def shareSummaryById (view : DaemonView) (shareId : ShareId) :
    Except String (Option IpcShareSummary) :=
  match view.listed with
  | .ok shares =>
      .ok ((shares.find? fun share => share.descriptor.shareId = shareId).map
        ipcShareSummaryFromLocal)
  | .error error => .error (view.describe error)

/-- Delete one share of the library. -/
def deleteShareResponse (view : DaemonView) (shareId : ShareId) : IpcResponse :=
  match shareSummaryById view shareId with
  | .ok none => .error ("share " ++ shareId.display ++ " does not exist in the local library")
  | .error message => .error message
  | .ok (some share) =>
      match view.deleted with
      | .ok true => .shareDeleted shareId share.name
      | .ok false =>
          .error ("share " ++ shareId.display ++ " disappeared before it could be deleted")
      | .error error => .error (view.describe error)

/-- Answer a command that needs no task of its own. -/
def handle (view : DaemonView) : IpcCommand → IpcResponse
  | .ping => .pong
  | .listShares => listSharesResponse view
  | .deleteShare shareId => deleteShareResponse view shareId
  | .shutdown => .ack "daemon shutdown requested"
  | .startServing _ => .ack "P2P serving is already managed by etled serve"
  | .stopServing =>
      .error "stopping only the P2P server is not implemented yet; use Shutdown"
  | .seedFile _ _ => .error "seed requires async daemon handling"
  | .download _ | .downloadFresh _ => .error "download requires async daemon handling"
  | .pause _ | .resume _ => .error "pause/resume control is not implemented yet"
  | .subscribeEvents => .ack "use a streaming IPC connection to subscribe to events"

/-- The name of a job. -/
def generateJobId (view : DaemonView) (kind : String) (shareId : ShareId) : String :=
  kind ++ "-" ++ shareId.display ++ "-" ++ toString view.millis ++ "-" ++ toString view.processId

/-- Queue the seeding of a file. -/
def queueSeedFileCommand (input : String) : IpcResponse := .ack ("seed job queued: " ++ input)

/-- Queue a download. -/
def queueDownloadCommand (view : DaemonView) (request : DownloadRequest) : IpcResponse :=
  .transferQueued request.shareId (generateJobId view "download" request.shareId)

/-- Answer any command. -/
def handleAsync (view : DaemonView) : IpcCommand → IpcResponse
  | .seedFile input _ => queueSeedFileCommand input
  | .download request => queueDownloadCommand view request
  | .downloadFresh request => queueDownloadCommand view request
  | command => handle view command

end Etle
