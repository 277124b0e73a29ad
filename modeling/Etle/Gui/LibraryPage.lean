import Etle.Foundations.Machine
import Etle.Gui.App

/-!
# What messages do to the library page

The shares, the selected row and the share whose deletion waits for its confirmation change with few
messages only.  Each of these changes is listed here once.
-/

namespace Etle

/-- The client as a machine; every message is handled in every state. -/
def guiMachine : Machine EtleGui AppInput where
  step gui message := some (gui.update message).1

namespace EtleGui

/-- The share whose deletion a message reports, if the client takes notice. -/
@[simp]
def appliedDeletion (gui : EtleGui) : AppInput → Option ShareId
  | .ipcResponse socketPath _ (.ok (.shareDeleted shareId _)) =>
      if socketPath = gui.activeSocketPath then some shareId else none
  | .ipcEvent generation (.shareDeleted shareId) =>
      if generation = gui.watchGeneration then some shareId else none
  | _ => none

/-- The message takes back a confirmation for this share: another row, a cancellation, or the
deletion itself. -/
@[simp]
def Withdraws (gui : EtleGui) (shareId : ShareId) : AppInput → Prop
  | .selectShare index => index < gui.shares.length
  | .cancelDeleteShare => True
  | message => gui.appliedDeletion message = some shareId

/-- The message asks for another socket than the one in use. -/
def ChangesSocket (gui : EtleGui) : AppInput → Prop
  | .applySocketText value | .applySettings value _ =>
      trimText value ≠ "" ∧ trimText value ≠ gui.activeSocketPath
  | _ => False

/-- What each message does to the library page. -/
inductive LibraryMove (gui : EtleGui) : AppInput → EtleGui → Prop
  | select {index : Nat} {next : EtleGui} (inside : index < gui.shares.length)
      (page : next.libraryPage = (gui.shares, some index, none)) :
      LibraryMove gui (.selectShare index) next
  | request {share : IpcShareSummary} {next : EtleGui}
      (selected : gui.selectedShareSummary = some share)
      (page : next.libraryPage = (gui.shares, gui.selectedShare, some share.shareId)) :
      LibraryMove gui .deleteSelectedShare next
  | requestInstead {share : IpcShareSummary} {next : EtleGui}
      (selected : gui.selectedShareSummary = some share)
      (other : gui.pendingDeleteShare ≠ some share.shareId)
      (page : next.libraryPage = (gui.shares, gui.selectedShare, some share.shareId)) :
      LibraryMove gui .confirmDeleteSelectedShare next
  | confirm {next : EtleGui} (page : next.libraryPage = (gui.shares, gui.selectedShare, none)) :
      LibraryMove gui .confirmDeleteSelectedShare next
  | cancel {next : EtleGui} (page : next.libraryPage = (gui.shares, gui.selectedShare, none)) :
      LibraryMove gui .cancelDeleteShare next
  | remove {message : AppInput} {shareId : ShareId} {next : EtleGui}
      (deleted : gui.appliedDeletion message = some shareId)
      (page : next.libraryPage = (gui.removeShare shareId).libraryPage) :
      LibraryMove gui message next
  | list {kind : IpcRequestKind} {shares : List IpcShareSummary} {next : EtleGui}
      (page : next.libraryPage = (gui.setShares shares).libraryPage) :
      LibraryMove gui (.ipcResponse gui.activeSocketPath kind (.ok (.shares shares))) next
  | add {socketPath : String} {kind : IpcRequestKind} {share : IpcShareSummary} {next : EtleGui}
      (page : next.libraryPage = (gui.upsertShare share).libraryPage) :
      LibraryMove gui (.ipcResponse socketPath kind (.ok (.shareAdded share))) next
  | updateShare {generation : Nat} {share : IpcShareSummary} {next : EtleGui}
      (page : next.libraryPage = (gui.upsertShare share).libraryPage) :
      LibraryMove gui (.ipcEvent generation (.shareUpdated share)) next
  | changeSocket {message : AppInput} {next : EtleGui} (changed : gui.ChangesSocket message)
      (page : next.libraryPage = ([], none, gui.pendingDeleteShare)) :
      LibraryMove gui message next
  | keep {message : AppInput} {next : EtleGui}
      (still : ∀ shareId, ¬gui.Withdraws shareId message)
      (page : next.libraryPage = gui.libraryPage) : LibraryMove gui message next

/-! ## The handlers -/

theorem libraryPage_applySocket (gui : EtleGui) :
    gui.applySocket.1.libraryPage = gui.libraryPage ∨
      (trimText gui.socketDraft ≠ "" ∧ trimText gui.socketDraft ≠ gui.activeSocketPath) ∧
        gui.applySocket.1.libraryPage = ([], none, gui.pendingDeleteShare) := by
  unfold applySocket
  simp only
  split
  next empty => exact .inl rfl
  next given =>
      split
      next other => exact .inr ⟨⟨given, other⟩, rfl⟩
      next same => exact .inl rfl

theorem libraryPage_spawnRefresh (gui : EtleGui) :
    gui.spawnRefresh.1.libraryPage = gui.libraryPage := by
  unfold spawnRefresh
  split <;> rfl

theorem libraryPage_startWatch (gui : EtleGui) :
    gui.startWatch.1.libraryPage = gui.libraryPage := by
  unfold startWatch
  split
  · rfl
  · split <;> rfl

theorem libraryPage_startSeedSelected (gui : EtleGui) :
    gui.startSeedSelected.1.libraryPage = gui.libraryPage := by
  unfold startSeedSelected
  simp only
  split
  · rfl
  · split
    · rfl
    · simp only [startSeedPath, libraryPage_upsertTransfer, libraryPage_bumpSeq]
      rfl

theorem libraryPage_startDownloadFromForm (gui : EtleGui) (shareIdText peersText outputText
    authPskText discoveryMulticastText : String) :
    (gui.startDownloadFromForm shareIdText peersText outputText authPskText
      discoveryMulticastText).1.libraryPage = gui.libraryPage := by
  unfold startDownloadFromForm
  split
  · rfl
  · simp only [libraryPage_upsertTransfer, libraryPage_bumpSeq]
    rfl

theorem libraryPage_addSeedFile (gui : EtleGui) (path : String) :
    (gui.addSeedFile path).libraryPage = gui.libraryPage := by
  unfold addSeedFile
  split <;> rfl

theorem libraryPage_connect (gui : EtleGui) : gui.connect.1.libraryPage = gui.libraryPage := by
  unfold connect
  split <;> rfl

theorem libraryPage_addSeedPathText (gui : EtleGui) (value : String) :
    (gui.addSeedPathText value).libraryPage = gui.libraryPage := by
  unfold addSeedPathText
  split
  · rfl
  · exact gui.libraryPage_addSeedFile _

theorem libraryPage_removeSelectedSeedFile (gui : EtleGui) :
    gui.removeSelectedSeedFile.libraryPage = gui.libraryPage := by
  unfold removeSelectedSeedFile
  split
  · rfl
  · split <;> rfl

/-! ## Messages -/

theorem libraryMove_applyIpcResponse (gui : EtleGui) (kind : IpcRequestKind)
    (result : Except String IpcResponse) (refreshInflight : Bool) :
    LibraryMove gui (.ipcResponse gui.activeSocketPath kind result)
      ({ gui with refreshInflight }.applyIpcResponse kind result) := by
  cases result with
  | error error =>
      refine .keep (by simp) ?_
      cases kind with
      | seed | download => exact libraryPage_markRecentRunningFailed _ error
      | ping | listShares | deleteShare => rfl
  | ok response =>
      cases response with
      | pong | ack message => exact .keep (by simp) rfl
      | shares shares =>
          apply LibraryMove.list
          exact libraryPage_syncExistingTransfersFromShares _
      | shareAdded share =>
          apply LibraryMove.add
          exact libraryPage_markSeedCompletedFromShare _ share
      | shareDeleted shareId name => exact .remove (if_pos rfl) rfl
      | transferQueued shareId jobId =>
          refine .keep (by simp) ?_
          simp only [applyIpcResponse, libraryPage_sortTransfers]
          split
          · rfl
          · rw [libraryPage_upsertTransfer]
            rfl
      | transferCompleted shareId output fileName fileSize chunks =>
          exact .keep (by simp) rfl
      | error message =>
          refine .keep (by simp) ?_
          cases kind with
          | seed | download => exact libraryPage_markRecentRunningFailed _ message
          | ping | listShares | deleteShare => rfl

theorem libraryMove_applyIpcEvent (gui : EtleGui) (event : IpcEvent) :
    LibraryMove gui (.ipcEvent gui.watchGeneration event) (gui.applyIpcEvent event) := by
  cases event with
  | shareUpdated share =>
      apply LibraryMove.updateShare
      rw [applyIpcEvent, libraryPage_syncExistingTransferFromShare,
        libraryPage_markSeedCompletedFromShare]
  | shareDeleted shareId => exact .remove (if_pos rfl) rfl
  | serverStarted socketPath => exact .keep (by simp) rfl
  | serverStopped => exact .keep (by simp) rfl
  | peerConnected address => exact .keep (by simp) rfl
  | chunkCompleted shareId completedChunks totalChunks =>
      exact .keep (by simp) rfl
  | taskProgress jobId task label completedChunks totalChunks bytesDone totalBytes
      bytesPerSecond =>
      refine .keep (by simp) ?_
      rw [applyIpcEvent, libraryPage_applyTaskProgress]
  | transferProgress jobId shareId completedChunks totalChunks bytesDone totalBytes
      bytesPerSecond =>
      refine .keep (by simp) ?_
      simp only [applyIpcEvent, libraryPage_upsertTransfer, libraryPage_bumpSeq]
  | transferCompleted jobId shareId output =>
      exact .keep (by simp) rfl
  | error message =>
      refine .keep (by simp) ?_
      exact gui.libraryPage_markRecentRunningFailed message

theorem libraryMove_deleteSelectedShare (gui : EtleGui) :
    LibraryMove gui .deleteSelectedShare gui.requestDeleteSelectedShare := by
  unfold requestDeleteSelectedShare
  split
  next => exact .keep (by simp) rfl
  next share selected => exact .request selected rfl

theorem libraryMove_confirmDeleteSelectedShare (gui : EtleGui) :
    LibraryMove gui .confirmDeleteSelectedShare gui.confirmDeleteSelectedShare.1 := by
  unfold confirmDeleteSelectedShare
  split
  next => exact .confirm rfl
  next share selected =>
      split
      next other =>
          refine .requestInstead selected other ?_
          simp only [requestDeleteSelectedShare, selected]
          rfl
      next same => exact .confirm rfl

theorem libraryMove_cancelDeleteShare (gui : EtleGui) :
    LibraryMove gui .cancelDeleteShare gui.cancelDeleteShare := by
  unfold cancelDeleteShare
  split
  next waiting => exact .cancel rfl
  next idle =>
      have nothing : gui.pendingDeleteShare = none := by simpa using idle
      exact .cancel (by rw [← nothing]; rfl)

/-- Every message moves the library page in one of the listed ways. -/
theorem libraryMove_of_update (gui : EtleGui) (message : AppInput) :
    LibraryMove gui message (gui.update message).1 := by
  cases message with
  | applySocketText value =>
      obtain same | ⟨changed, page⟩ := libraryPage_applySocket { gui with socketDraft := value }
      · exact .keep (by simp) same
      · exact .changeSocket changed page
  | applySettings socketPath authPsk =>
      obtain same | ⟨changed, page⟩ :=
        libraryPage_applySocket { gui with authPsk, socketDraft := socketPath }
      · exact .keep (by simp) same
      · exact .changeSocket changed page
  | ipcResponse socketPath kind result =>
      simp only [update]
      split
      next active =>
          subst active
          split
          · exact gui.libraryMove_applyIpcResponse kind result false
          · exact gui.libraryMove_applyIpcResponse kind result gui.refreshInflight
      next stale =>
          refine .keep ?_ rfl
          cases result with
          | error error => simp
          | ok response => cases response <;> simp [stale]
  | ipcEvent generation event =>
      simp only [update]
      split
      next watched =>
          subst watched
          exact gui.libraryMove_applyIpcEvent event
      next stale =>
          refine .keep ?_ rfl
          cases event <;> simp [stale]
  | selectShare index =>
      simp only [update]
      split
      next inside => exact .select inside rfl
      next outside => exact .keep (fun _ => outside) rfl
  | deleteSelectedShare => exact gui.libraryMove_deleteSelectedShare
  | confirmDeleteSelectedShare => exact gui.libraryMove_confirmDeleteSelectedShare
  | cancelDeleteShare => exact gui.libraryMove_cancelDeleteShare
  | connect => exact .keep (by simp) gui.libraryPage_connect
  | refresh => exact .keep (by simp) gui.libraryPage_spawnRefresh
  | autoRefreshTick elapsedSecs =>
      refine .keep (by simp) ?_
      simp only [update]
      split
      · exact gui.libraryPage_spawnRefresh
      · rfl
  | startWatch => exact .keep (by simp) gui.libraryPage_startWatch
  | ipcWatchStopped generation error =>
      refine .keep (by simp) ?_
      simp only [update]
      split <;> rfl
  | addSeedPathText value => exact .keep (by simp) (gui.libraryPage_addSeedPathText value)
  | addSeedFile path => exact .keep (by simp) (gui.libraryPage_addSeedFile path)
  | selectSeedFile index =>
      refine .keep (by simp) ?_
      simp only [update]
      split <;> rfl
  | removeSelectedSeedFile =>
      refine .keep (by simp) ?_
      exact gui.libraryPage_removeSelectedSeedFile
  | startSeedSelected =>
      refine .keep (by simp) ?_
      rw [update, libraryPage_startSeedSelected]
  | startDownloadFromForm shareId peers output authPsk discoveryMulticast =>
      refine .keep (by simp) ?_
      rw [update, libraryPage_startDownloadFromForm]
  | copySelectedShareId | clearLog | clearFinishedTransfers | browseSeedFiles | clearSeedFiles
  | setSeedChunkSize | setParallelism | setRequestWindow | setDiscoveryPort | setDiscoveryTimeout
  | setResume | setAutoRefresh | setClearActivityOnTask | setRefreshInterval | setActivityLimit =>
      refine .keep (by simp) ?_
      simp only [update, libraryPage, clearFinishedTransfers]

end EtleGui

/-! ## A small library -/

/-- What a client is started with. -/
def startedInit : GuiInit where
  socketPath := "/run/etle.sock"
  authPsk := ""
  downloadParallelism := 1
  requestWindow := 8
  discoveryPort := 40404
  discoveryTimeoutMs := 3000

def startedGui : EtleGui := .new startedInit

/-- A share that is still downloading, as the daemon lists it. -/
def listedShare (name : String) (byte : UInt8) : IpcShareSummary where
  shareId := ⟨Vector.replicate 32 byte⟩
  name
  completedChunks := 1
  totalChunks := 4
  hasSecret := true
  mode := none

/-- The daemon answers a refresh with these shares. -/
def listing (shares : List IpcShareSummary) : AppInput :=
  .ipcResponse "/run/etle.sock" .listShares (.ok (.shares shares))

end Etle
