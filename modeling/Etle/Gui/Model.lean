import Etle.Config.Values
import Etle.Foundations.Lines
import Etle.Ipc.Events
import Std.Data.TreeSet

/-!
# State of the graphical client

The shares and transfers the client shows, what is selected, and what it is about to ask the daemon.
The activity log and the texts and fractions that are only shown are left out.
-/

namespace Etle

open Std (TreeSet)

inductive TransferKind where
  | seed
  | download
  deriving DecidableEq

def TransferKind.label : TransferKind → String
  | seed => "seed"
  | download => "download"

inductive TransferStatus where
  | queued
  | running
  | done
  | failed
  deriving DecidableEq

namespace TransferStatus

def label : TransferStatus → String
  | queued => "queued"
  | running => "running"
  | done => "done"
  | failed => "failed"

def isFinished : TransferStatus → Bool
  | done | failed => true
  | queued | running => false

end TransferStatus

/-- The card of a transfer. -/
structure GuiTransfer where
  id : String
  kind : TransferKind
  label : String
  shareId : Option ShareId
  status : TransferStatus
  completedChunks : Nat
  totalChunks : Nat
  bytesDone : UInt64
  totalBytes : UInt64
  bytesPerSecond : UInt64
  detail : String
  updatedSeq : Nat
  deriving DecidableEq

namespace GuiTransfer

def hideKey (transfer : GuiTransfer) : String :=
  let name := match transfer.shareId with
    | some shareId => shareId.display
    | none => transfer.id
  transfer.kind.label ++ ":" ++ transfer.status.label ++ ":" ++ name

/-- The names under which a finished transfer is hidden. -/
def hiddenKeys (transfer : GuiTransfer) : List String :=
  [transfer.id, transfer.kind.label ++ ":label:" ++ transfer.label, transfer.hideKey] ++
    match transfer.shareId with
    | some shareId => [transfer.kind.label ++ ":share:" ++ shareId.display]
    | none => []

end GuiTransfer

/-- What a request to the daemon was for. -/
inductive IpcRequestKind where
  | ping
  | listShares
  | seed
  | download
  | deleteShare
  deriving DecidableEq

/-- What the client starts with. -/
structure GuiInit where
  socketPath : String
  authPsk : String
  downloadParallelism : Nat
  requestWindow : Nat
  discoveryPort : UInt16
  discoveryTimeoutMs : UInt64

/-- The state of the client.  The time of the last refresh comes with the ticks. -/
structure EtleGui where
  activeSocketPath : String
  socketDraft : String
  connected : Bool
  watching : Bool
  watchGeneration : Nat
  autoRefresh : Bool
  refreshIntervalSecs : Nat
  selectedShare : Option Nat
  pendingDeleteShare : Option ShareId
  shares : List IpcShareSummary
  transfers : List GuiTransfer
  hiddenFinishedTransfers : TreeSet String
  status : String
  nextTransferSeq : Nat
  refreshInflight : Bool
  seedFiles : List String
  selectedSeedFile : Option Nat
  seedChunkSize : Nat
  downloadParallelism : Nat
  downloadRequestWindow : Nat
  discoveryPort : UInt16
  discoveryTimeoutMs : UInt64
  resume : Bool
  authPsk : String

def EtleGui.new (init : GuiInit) : EtleGui where
  activeSocketPath := init.socketPath
  socketDraft := init.socketPath
  connected := false
  watching := false
  watchGeneration := 0
  autoRefresh := true
  refreshIntervalSecs := 2
  selectedShare := none
  pendingDeleteShare := none
  shares := []
  transfers := []
  hiddenFinishedTransfers := ∅
  status := "offline"
  nextTransferSeq := 1
  refreshInflight := false
  seedFiles := []
  selectedSeedFile := none
  seedChunkSize := 1024 * 1024
  downloadParallelism := init.downloadParallelism
  downloadRequestWindow := init.requestWindow
  discoveryPort := init.discoveryPort
  discoveryTimeoutMs := init.discoveryTimeoutMs
  resume := true
  authPsk := init.authPsk

/-- The messages of the client.  A tick names the seconds since the last refresh, and browsing the
files that are picked. -/
inductive AppInput where
  | applySocketText (value : String)
  | connect
  | refresh
  | autoRefreshTick (elapsedSecs : Nat)
  | startWatch
  | ipcResponse (socketPath : String) (kind : IpcRequestKind) (result : Except String IpcResponse)
  | ipcEvent (generation : Nat) (event : IpcEvent)
  | ipcWatchStopped (generation : Nat) (error : String)
  | selectShare (index : Nat)
  | copySelectedShareId
  | deleteSelectedShare
  | confirmDeleteSelectedShare
  | cancelDeleteShare
  | clearLog
  | clearFinishedTransfers
  | addSeedPathText (value : String)
  | addSeedFile (path : String)
  | browseSeedFiles (paths : List String)
  | selectSeedFile (index : Nat)
  | removeSelectedSeedFile
  | clearSeedFiles
  | setSeedChunkSize (value : Nat)
  | startSeedSelected
  | setParallelism (value : Nat)
  | setRequestWindow (value : Nat)
  | setDiscoveryPort (value : UInt16)
  | setDiscoveryTimeout (value : UInt64)
  | setResume (value : Bool)
  | startDownloadFromForm (shareId peers output authPsk discoveryMulticast : String)
  | applySettings (socketPath authPsk : String)
  | setAutoRefresh (value : Bool)
  | setClearActivityOnTask (value : Bool)
  | setRefreshInterval (value : Nat)
  | setActivityLimit (value : Nat)

/-- What the client does besides changing its state. -/
inductive GuiEffect where
  /-- Send a command to the daemon and its response to the client. -/
  | sendCommand (socketPath : String) (kind : IpcRequestKind) (command : IpcCommand)
  | watch (socketPath : String) (generation : Nat)
  | input (message : AppInput)

/-! ## Texts -/

/-- A text without the white space at its ends. -/
def trimText (text : String) : String := String.ofList (trim text.toList)

/-- A trimmed text, unless nothing is left of it. -/
def nonEmpty (value : String) : Option String :=
  if trimText value = "" then none else some (trimText value)

/-- Whether a path is absolute, and its components; a leading `.` is one of a relative path. -/
def pathComponents (path : String) : Bool × List (List Char) :=
  let parts := (path.toList.splitOn '/').filter (· ≠ [])
  if path.toList.head? = some '/' then
    (true, parts.filter (· ≠ ['.']))
  else
    (false, parts.take 1 ++ (parts.drop 1).filter (· ≠ ['.']))

/-- `Path::file_name`, and the whole path if it has none. -/
def fileLabel (path : String) : String :=
  match (pathComponents path).2.getLast? with
  | none | some ['.'] | some ['.', '.'] => path
  | some part => String.ofList part

/-- The words of a text with one space between them. -/
def compactLogLine (value : String) : String :=
  String.ofList ([' '].intercalate (words value.toList))

/-- The peers of a download form. -/
def parsePeers (input : String) : Option (List SocketAddr) :=
  ((input.toList.splitOnP fun character => character = ',' || isWhitespace character).filter
    (· ≠ [])).mapM fun peer => (parseSocketAddr peer).map Prod.fst

namespace EtleGui

variable (gui : EtleGui)

def refreshDue (elapsedSecs : Nat) : Bool :=
  gui.autoRefresh && !gui.refreshInflight && max gui.refreshIntervalSecs 1 ≤ elapsedSecs

def selectedShareSummary : Option IpcShareSummary := gui.selectedShare.bind (gui.shares[·]?)

/-- The share that the confirmation panel names; without one the panel is hidden. -/
def pendingDeleteShareSummary : Option IpcShareSummary :=
  gui.pendingDeleteShare.bind fun pending => gui.shares.find? (·.shareId = pending)

/-- The command of a download form, if its fields can be read. -/
def buildDownloadCommandFrom (shareIdText peersText outputText authPskText
    discoveryMulticastText : String) : Option (IpcCommand × ShareId) := do
  let shareId ← ShareId.fromStr (trimText shareIdText)
  let peers ← parsePeers peersText
  let discoveryMulticast ← parseIpv4Addr (trimText discoveryMulticastText).toList
  let request : DownloadRequest := {
    shareId, peers
    output := nonEmpty (trimText outputText)
    parallelism := gui.downloadParallelism
    requestWindow := max gui.downloadRequestWindow 1
    discoveryPort := gui.discoveryPort
    discoveryTimeoutMs := max gui.discoveryTimeoutMs 1
    discoveryMulticast
    authPsk := (nonEmpty (trimText authPskText)).or (nonEmpty gui.authPsk) }
  return (if gui.resume then .download request else .downloadFresh request, shareId)

end EtleGui

end Etle
