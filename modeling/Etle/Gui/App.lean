import Etle.Gui.Transfers

/-!
# The graphical client

The client handles one message after another: what its user does, what the daemon answers to its
commands, and what the daemon tells it while it watches.
-/

namespace Etle

namespace EtleGui

/-! ## Connection -/

/-- Use the socket that has been typed in.  Another socket has other shares. -/
def applySocket (gui : EtleGui) : EtleGui × List GuiEffect :=
  let next := trimText gui.socketDraft
  if next = "" then
    (gui, [])
  else
    let gui :=
      if next ≠ gui.activeSocketPath then
        { gui with
          watchGeneration := min (gui.watchGeneration + 1) (2 ^ 64 - 1)
          activeSocketPath := next
          connected := false
          watching := false
          refreshInflight := false
          selectedShare := none
          shares := [] }
      else
        gui
    (gui, [.input .connect, .input .refresh, .input .startWatch])

def connect (gui : EtleGui) : EtleGui × List GuiEffect :=
  if trimText gui.activeSocketPath = "" then
    ({ gui with connected := false, status := "offline" }, [])
  else
    ({ gui with connected := false, status := "checking" },
      [.sendCommand gui.activeSocketPath .ping .ping])

def spawnRefresh (gui : EtleGui) : EtleGui × List GuiEffect :=
  if gui.refreshInflight then
    (gui, [])
  else
    ({ gui with status := "refreshing", refreshInflight := true },
      [.sendCommand gui.activeSocketPath .listShares .listShares])

def startWatch (gui : EtleGui) : EtleGui × List GuiEffect :=
  if trimText gui.activeSocketPath = "" then
    ({ gui with connected := false, status := "offline" }, [])
  else if gui.watching then
    (gui, [])
  else
    let generation := min (gui.watchGeneration + 1) (2 ^ 64 - 1)
    ({ gui with watchGeneration := generation, watching := true },
      [.watch gui.activeSocketPath generation])

/-! ## Seeding and downloading -/

/-- Paths are equal when their components are. -/
def addSeedFile (gui : EtleGui) (path : String) : EtleGui :=
  if path = "" ∨ gui.seedFiles.any (pathComponents · = pathComponents path) then
    gui
  else
    { gui with
      seedFiles := gui.seedFiles ++ [path]
      selectedSeedFile := gui.selectedSeedFile.or (some 0) }

def addSeedPathText (gui : EtleGui) (value : String) : EtleGui :=
  if trimText value = "" then gui else gui.addSeedFile (trimText value)

/-- Remove a seed file and select the one that takes its place. -/
def removeSeedFile (gui : EtleGui) (index : Nat) : EtleGui :=
  let seedFiles := gui.seedFiles.eraseIdx index
  { gui with
    seedFiles
    selectedSeedFile := if seedFiles = [] then none else some (min index (seedFiles.length - 1)) }

def removeSelectedSeedFile (gui : EtleGui) : EtleGui :=
  match gui.selectedSeedFile with
  | none => gui
  | some index => if index < gui.seedFiles.length then gui.removeSeedFile index else gui

def startSeedPath (gui : EtleGui) (path : String) : EtleGui × List GuiEffect :=
  let label := fileLabel path
  let (seq, gui) := gui.bumpSeq
  let gui := gui.upsertTransfer {
    id := "seed:" ++ label ++ ":" ++ toString seq
    kind := .seed
    label
    shareId := none
    status := .running
    completedChunks := 0
    totalChunks := 0
    bytesDone := 0
    totalBytes := 0
    bytesPerSecond := 0
    detail := "encrypting · " ++ path
    updatedSeq := seq }
  (gui, [.sendCommand gui.activeSocketPath .seed (.seedFile path (max gui.seedChunkSize 1))])

def startSeedSelected (gui : EtleGui) : EtleGui × List GuiEffect :=
  let index := gui.selectedSeedFile.getD 0
  if gui.seedFiles = [] then
    (gui, [])
  else
    match gui.seedFiles[index]? with
    | none => ({ gui with selectedSeedFile := none }, [])
    | some path => (gui.removeSeedFile index).startSeedPath path

def startDownloadFromForm (gui : EtleGui) (shareIdText peersText outputText authPskText
    discoveryMulticastText : String) : EtleGui × List GuiEffect :=
  match gui.buildDownloadCommandFrom shareIdText peersText outputText authPskText
      discoveryMulticastText with
  | none => (gui, [])
  | some (command, shareId) =>
      let (seq, gui) := { gui with authPsk := authPskText }.bumpSeq
      let gui := gui.upsertTransfer {
        id := "download:" ++ shareId.display
        kind := .download
        label := shareId.display
        shareId := some shareId
        status := .queued
        completedChunks := 0
        totalChunks := 0
        bytesDone := 0
        totalBytes := 0
        bytesPerSecond := 0
        detail := "waiting for daemon"
        updatedSeq := seq }
      (gui, [.sendCommand gui.activeSocketPath .download command])

/-! ## Deleting -/

/-- Ask for a confirmation. -/
def requestDeleteSelectedShare (gui : EtleGui) : EtleGui :=
  match gui.selectedShareSummary with
  | none => { gui with status := "select share" }
  | some share =>
      { gui with pendingDeleteShare := some share.shareId, status := "confirm delete" }

/-- Delete the selected share if the confirmation is for it, and ask for one otherwise. -/
def confirmDeleteSelectedShare (gui : EtleGui) : EtleGui × List GuiEffect :=
  match gui.selectedShareSummary with
  | none => ({ gui with pendingDeleteShare := none, status := "select share" }, [])
  | some share =>
      if gui.pendingDeleteShare ≠ some share.shareId then
        (gui.requestDeleteSelectedShare, [])
      else
        ({ gui with pendingDeleteShare := none, status := "delete requested" },
          [.sendCommand gui.activeSocketPath .deleteShare (.deleteShare share.shareId)])

def cancelDeleteShare (gui : EtleGui) : EtleGui :=
  if gui.pendingDeleteShare.isSome then
    { gui with pendingDeleteShare := none, status := "delete cancelled" }
  else
    gui

/-! ## Shares -/

/-- Remove a share, and select the one that was selected where it is now. -/
def removeShare (gui : EtleGui) (shareId : ShareId) : EtleGui :=
  let selectedShareId := gui.selectedShareSummary.map (·.shareId)
  let shares := gui.shares.filter (·.shareId ≠ shareId)
  { gui with
    pendingDeleteShare :=
      if gui.pendingDeleteShare = some shareId then none else gui.pendingDeleteShare
    shares
    selectedShare := (selectedShareId.filter (· ≠ shareId)).bind fun selected =>
      shares.findIdx? (·.shareId = selected)
    transfers := gui.transfers.filter (·.shareId ≠ some shareId) }

def upsertShare (gui : EtleGui) (share : IpcShareSummary) : EtleGui :=
  let shares :=
    if gui.shares.any (·.shareId = share.shareId) then
      modifyFirst (·.shareId = share.shareId) (fun _ => share) gui.shares
    else
      gui.shares ++ [share]
  { gui with shares }

/-- Show the shares of a listing; a selection outside it is dropped. -/
def setShares (gui : EtleGui) (shares : List IpcShareSummary) : EtleGui :=
  { gui with
    connected := true
    status := "idle"
    shares
    selectedShare := gui.selectedShare.filter (· < shares.length) }

/-! ## The daemon -/

def applyIpcResponse (gui : EtleGui) (kind : IpcRequestKind) :
    Except String IpcResponse → EtleGui
  | .ok .pong => { gui with connected := true, status := "online" }
  | .ok (.ack _) => { gui with connected := true }
  | .ok (.shares shares) => (gui.setShares shares).syncExistingTransfersFromShares
  | .ok (.shareAdded share) =>
      ({ gui with connected := true }.upsertShare share).markSeedCompletedFromShare share
  | .ok (.shareDeleted shareId _) =>
      { { gui with connected := true }.removeShare shareId with status := "share deleted" }
  | .ok (.transferQueued shareId jobId) =>
      let (seq, gui) := { gui with connected := true }.bumpSeq
      let gui :=
        if gui.transfers.any (·.isOf shareId .download) then
          gui.modifyDownload shareId fun transfer =>
            { transfer with
              id := jobId, status := .running, detail := "downloading", updatedSeq := seq }
        else
          gui.upsertTransfer {
            id := jobId
            kind := .download
            label := shareId.display
            shareId := some shareId
            status := .running
            completedChunks := 0
            totalChunks := 0
            bytesDone := 0
            totalBytes := 0
            bytesPerSecond := 0
            detail := "downloading"
            updatedSeq := seq }
      gui.sortTransfers
  | .ok (.transferCompleted shareId output fileName fileSize chunks) =>
      let (seq, gui) := { gui with connected := true }.bumpSeq
      (gui.modifyDownload shareId fun transfer =>
        { transfer with
          status := .done
          label := fileName
          completedChunks := chunks
          totalChunks := chunks
          bytesDone := fileSize
          totalBytes := fileSize
          bytesPerSecond := 0
          detail := "saved · " ++ output
          updatedSeq := seq }).sortTransfers
  | .ok (.error message) =>
      match kind with
      | .seed | .download => gui.markRecentRunningFailed message
      | .ping | .listShares | .deleteShare => gui
  | .error error =>
      match kind with
      | .listShares => { gui with refreshInflight := false, status := "refresh delayed" }
      | .ping => { gui with connected := false, status := "offline" }
      | .seed | .download =>
          { gui with connected := false, status := "request failed" }.markRecentRunningFailed error
      | .deleteShare => { gui with connected := false, status := "request failed" }

/-- The card whose download has completed, by its job or by its share. -/
def completedPosition (gui : EtleGui) (jobId : Option String) (shareId : ShareId) : Option Nat :=
  (jobId.bind fun id => gui.transfers.findIdx? (·.id = id)).or
    (gui.transfers.findIdx? (·.isOf shareId .download))

def applyIpcEvent (gui : EtleGui) : IpcEvent → EtleGui
  | .serverStarted _ => { gui with connected := true }
  | .serverStopped => { gui with connected := false }
  | .shareUpdated share =>
      ((gui.upsertShare share).markSeedCompletedFromShare share).syncExistingTransferFromShare share
  | .shareDeleted shareId => gui.removeShare shareId
  | .peerConnected _ => gui
  | .chunkCompleted shareId completedChunks totalChunks =>
      let (seq, gui) := gui.bumpSeq
      (gui.modifyDownload shareId fun transfer =>
        { transfer with
          status := .running
          completedChunks
          totalChunks
          detail := "chunk verified"
          updatedSeq := seq }).sortTransfers
  | .taskProgress jobId task label completedChunks totalChunks bytesDone totalBytes
      bytesPerSecond =>
      gui.applyTaskProgress jobId task label completedChunks totalChunks bytesDone totalBytes
        bytesPerSecond
  | .transferProgress jobId shareId completedChunks totalChunks bytesDone totalBytes
      bytesPerSecond =>
      let id := jobId.getD ("download:" ++ shareId.display)
      let (seq, gui) := gui.bumpSeq
      let shareName := (gui.shares.find? (·.shareId = shareId)).map (·.name)
      let existing := gui.transfers.find? fun transfer =>
        transfer.id = id || transfer.isOf shareId .download
      let existingDetail := (existing.map (·.detail)).getD ""
      gui.upsertTransfer {
        id
        kind := .download
        label := shareName.getD shareId.display
        shareId := some shareId
        status := .running
        completedChunks
        totalChunks
        bytesDone
        totalBytes
        bytesPerSecond
        detail :=
          if isSpecificProgressDetail existingDetail then existingDetail
          else "receiving + verifying"
        updatedSeq := seq }
  | .transferCompleted jobId shareId output =>
      let (seq, gui) := gui.bumpSeq
      let share := gui.shares.find? (·.shareId = shareId)
      let complete (transfer : GuiTransfer) : GuiTransfer :=
        { transfer with
          status := .done
          shareId := some shareId
          label := (share.map (·.name)).getD transfer.label
          completedChunks := (share.map (·.completedChunks)).getD transfer.completedChunks
          totalChunks := (share.map (·.totalChunks)).getD transfer.totalChunks
          detail := "saved · " ++ output
          updatedSeq := seq }
      let transfers := match gui.completedPosition jobId shareId with
        | some position => gui.transfers.modify position complete
        | none => gui.transfers
      { gui with transfers }.sortTransfers
  | .error message => gui.markRecentRunningFailed message

/-! ## Messages -/

/-- Handle one message. -/
def update (gui : EtleGui) : AppInput → EtleGui × List GuiEffect
  | .applySocketText value => { gui with socketDraft := value }.applySocket
  | .connect => gui.connect
  | .refresh => gui.spawnRefresh
  | .autoRefreshTick elapsedSecs =>
      if gui.refreshDue elapsedSecs then gui.spawnRefresh else (gui, [])
  | .startWatch => gui.startWatch
  | .ipcResponse socketPath kind result =>
      if socketPath = gui.activeSocketPath then
        let gui := if kind = .listShares then { gui with refreshInflight := false } else gui
        (gui.applyIpcResponse kind result, [])
      else
        (gui, [])
  | .ipcEvent generation event =>
      if generation = gui.watchGeneration then (gui.applyIpcEvent event, []) else (gui, [])
  | .ipcWatchStopped generation _ =>
      if generation = gui.watchGeneration then
        ({ gui with watching := false, connected := false, status := "offline" }, [])
      else
        (gui, [])
  | .selectShare index =>
      if index < gui.shares.length then
        ({ gui with selectedShare := some index, pendingDeleteShare := none }, [])
      else
        (gui, [])
  -- These two only concern the clipboard and the activity log.
  | .copySelectedShareId | .clearLog => (gui, [])
  | .deleteSelectedShare => (gui.requestDeleteSelectedShare, [])
  | .confirmDeleteSelectedShare => gui.confirmDeleteSelectedShare
  | .cancelDeleteShare => (gui.cancelDeleteShare, [])
  | .clearFinishedTransfers => (gui.clearFinishedTransfers, [])
  | .addSeedPathText value => (gui.addSeedPathText value, [])
  | .addSeedFile path => (gui.addSeedFile path, [])
  | .browseSeedFiles paths => (gui, paths.map fun path => .input (.addSeedFile path))
  | .selectSeedFile index =>
      if index < gui.seedFiles.length then ({ gui with selectedSeedFile := some index }, [])
      else (gui, [])
  | .removeSelectedSeedFile => (gui.removeSelectedSeedFile, [])
  | .clearSeedFiles => ({ gui with seedFiles := [], selectedSeedFile := none }, [])
  | .setSeedChunkSize value => ({ gui with seedChunkSize := max value 1 }, [])
  | .startSeedSelected => gui.startSeedSelected
  | .setParallelism value => ({ gui with downloadParallelism := value }, [])
  | .setRequestWindow value => ({ gui with downloadRequestWindow := max value 1 }, [])
  | .setDiscoveryPort value => ({ gui with discoveryPort := max value 1 }, [])
  | .setDiscoveryTimeout value => ({ gui with discoveryTimeoutMs := max value 1 }, [])
  | .setResume value => ({ gui with resume := value }, [])
  | .startDownloadFromForm shareId peers output authPsk discoveryMulticast =>
      gui.startDownloadFromForm shareId peers output authPsk discoveryMulticast
  | .applySettings socketPath authPsk => { gui with authPsk, socketDraft := socketPath }.applySocket
  | .setAutoRefresh value => ({ gui with autoRefresh := value }, [])
  | .setRefreshInterval value => ({ gui with refreshIntervalSecs := max value 1 }, [])
  -- The length of the activity log and when it is cleared.
  | .setClearActivityOnTask _ | .setActivityLimit _ => (gui, [])

end EtleGui

end Etle
