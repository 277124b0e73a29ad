import Etle.Gui.LibraryPage

/-!
# What the daemon has no say in

Responses and events of the daemon change the shares and cards that are shown.  The socket in use,
the watch, the refresh that is on its way and the seed queue are left to the client itself.
-/

namespace Etle

/-- How the client is attached to a daemon. -/
structure ClientSession where
  activeSocketPath : String
  watching : Bool
  watchGeneration : Nat
  refreshInflight : Bool

/-- The part of the client that nothing the daemon says changes, but for the end of a refresh. -/
structure Controls where
  session : ClientSession
  seedFiles : List String
  selectedSeedFile : Option Nat

namespace EtleGui

def session (gui : EtleGui) : ClientSession where
  activeSocketPath := gui.activeSocketPath
  watching := gui.watching
  watchGeneration := gui.watchGeneration
  refreshInflight := gui.refreshInflight

def controls (gui : EtleGui) : Controls where
  session := gui.session
  seedFiles := gui.seedFiles
  selectedSeedFile := gui.selectedSeedFile

/-! ## Cards -/

@[simp]
theorem controls_bumpSeq (gui : EtleGui) : gui.bumpSeq.2.controls = gui.controls := rfl

@[simp]
theorem controls_sortTransfers (gui : EtleGui) : gui.sortTransfers.controls = gui.controls := rfl

@[simp]
theorem controls_modifyDownload (gui : EtleGui) (shareId : ShareId)
    (change : GuiTransfer → GuiTransfer) :
    (gui.modifyDownload shareId change).controls = gui.controls := rfl

@[simp]
theorem controls_upsertTransfer (gui : EtleGui) (transfer : GuiTransfer) :
    (gui.upsertTransfer transfer).controls = gui.controls := by
  unfold upsertTransfer
  split <;> rfl

theorem controls_syncExistingTransferFromShare (gui : EtleGui) (share : IpcShareSummary) :
    (gui.syncExistingTransferFromShare share).controls = gui.controls := by
  unfold syncExistingTransferFromShare
  dsimp only
  split
  · rfl
  · split
    · rw [controls_upsertTransfer, controls_bumpSeq]
    · rfl

theorem controls_syncExistingTransfersFromShares (gui : EtleGui) :
    gui.syncExistingTransfersFromShares.controls = gui.controls := by
  unfold syncExistingTransfersFromShares
  generalize gui.shares = shares
  induction shares generalizing gui with
  | nil => rfl
  | cons share shares ih =>
      exact (ih _).trans (gui.controls_syncExistingTransferFromShare share)

theorem controls_markSeedCompletedFromShare (gui : EtleGui) (share : IpcShareSummary) :
    (gui.markSeedCompletedFromShare share).controls = gui.controls := by
  unfold markSeedCompletedFromShare
  split
  · rfl
  · dsimp only
    rw [controls_sortTransfers]
    split
    · apply controls_syncExistingTransferFromShare
    · rfl

theorem controls_startSeedPath (gui : EtleGui) (path : String) :
    (gui.startSeedPath path).1.controls = gui.controls := by
  unfold startSeedPath
  dsimp only
  rw [controls_upsertTransfer, controls_bumpSeq]

theorem controls_startDownloadFromForm (gui : EtleGui) (shareIdText peersText outputText
    authPskText discoveryMulticastText : String) :
    (gui.startDownloadFromForm shareIdText peersText outputText authPskText
      discoveryMulticastText).1.controls = gui.controls := by
  unfold startDownloadFromForm
  split
  · rfl
  · dsimp only
    rw [controls_upsertTransfer]
    rfl

/-! ## The daemon -/

theorem controls_applyIpcResponse (gui : EtleGui) {kind : IpcRequestKind}
    (result : Except String IpcResponse)
    (answered : kind = .listShares → gui.refreshInflight = false) :
    (gui.applyIpcResponse kind result).controls = gui.controls := by
  cases result with
  | error error =>
      cases kind with
      | listShares =>
          have idle := answered rfl
          simp only [controls, session, applyIpcResponse, idle]
      | ping | seed | download | deleteShare => rfl
  | ok response =>
      cases response with
      | shares shares => apply controls_syncExistingTransfersFromShares
      | shareAdded share => apply controls_markSeedCompletedFromShare
      | transferQueued shareId jobId =>
          dsimp only [applyIpcResponse]
          rw [controls_sortTransfers]
          split
          · rfl
          · rw [controls_upsertTransfer]
            rfl
      | error message => cases kind <;> rfl
      | pong | ack | shareDeleted | transferCompleted => rfl

theorem controls_applyIpcEvent (gui : EtleGui) (event : IpcEvent) :
    (gui.applyIpcEvent event).controls = gui.controls := by
  cases event with
  | shareUpdated share =>
      apply (controls_syncExistingTransferFromShare _ share).trans
      apply controls_markSeedCompletedFromShare
  | taskProgress =>
      apply (controls_upsertTransfer _ _).trans
      rfl
  | transferProgress =>
      apply (controls_upsertTransfer _ _).trans
      rfl
  | serverStarted | serverStopped | shareDeleted | peerConnected | chunkCompleted
  | transferCompleted | error => rfl

/-- A response from the socket in use ends a refresh if it answers one. -/
theorem session_update_ipcResponse (gui : EtleGui) (socketPath : String) (kind : IpcRequestKind)
    (result : Except String IpcResponse) :
    (gui.update (.ipcResponse socketPath kind result)).1.session =
      if socketPath = gui.activeSocketPath ∧ kind = .listShares then
        { gui.session with refreshInflight := false }
      else
        gui.session := by
  dsimp only [update]
  by_cases active : socketPath = gui.activeSocketPath
  · by_cases listing : kind = .listShares
    · rw [if_pos active, if_pos listing, if_pos ⟨active, listing⟩]
      exact congrArg Controls.session (controls_applyIpcResponse _ result fun _ => rfl)
    · rw [if_pos active, if_neg listing, if_neg fun both => listing both.2]
      exact congrArg Controls.session
        (controls_applyIpcResponse _ result fun same => absurd same listing)
  · rw [if_neg active, if_neg fun both => active both.1]

end EtleGui

end Etle
