import Etle.Gui.Model
import Mathlib.Data.List.Sort

/-!
# Transfer cards

How the cards of the client follow its commands, the shares of the library and the events of the
daemon.
-/

namespace Etle

/-- Change the first element that is wanted. -/
def modifyFirst {α : Type} (wanted : α → Bool) (change : α → α) : List α → List α
  | [] => []
  | first :: rest =>
      if wanted first then change first :: rest else first :: modifyFirst wanted change rest

/-- The last element with the largest key. -/
def lastMax {α : Type} (key : α → Nat) : List α → Option α
  | [] => none
  | first :: rest =>
      match lastMax key rest with
      | some best => if key first ≤ key best then some best else some first
      | none => some first

/-- Running cards come first, then queued, failed and finished ones, and the latest first. -/
def TransferStatus.rank : TransferStatus → Nat
  | running => 0
  | queued => 1
  | failed => 2
  | done => 3

def shareIsComplete (share : IpcShareSummary) : Bool :=
  if share.totalChunks = 0 then
    share.mode = some "seeding" || share.mode = some "completed"
  else
    share.totalChunks ≤ share.completedChunks

def isSpecificProgressDetail (detail : String) : Bool :=
  ["receiving", "decrypting", "encrypting", "uploading", "writing", "saved"].any
    (containsText detail)

def friendlyTaskDetail (task : String) : String :=
  if containsText task "completed" then "completed"
  else if containsText task "decrypted+written" then "decrypting + writing"
  else if containsText task "received+verified" then "receiving + verifying"
  else if containsText task "served-from-library" then "uploading chunks"
  else if containsText task "staged+encrypted" then "encrypting + staging"
  else if containsText task "seed" then "seeding"
  else String.ofList (task.toList.flatMap fun character =>
    if character = ':' then " · ".toList else [character])

/-- The card belongs to the download of this share, or to its seeding. -/
def GuiTransfer.isOf (shareId : ShareId) (kind : TransferKind) (transfer : GuiTransfer) : Bool :=
  transfer.shareId = some shareId && transfer.kind = kind

namespace EtleGui

def bumpSeq (gui : EtleGui) : Nat × EtleGui :=
  (gui.nextTransferSeq, { gui with nextTransferSeq := min (gui.nextTransferSeq + 1) (2 ^ 64 - 1) })

def sortTransfers (gui : EtleGui) : EtleGui :=
  { gui with
    transfers := gui.transfers.insertionSort fun left right =>
      left.status.rank < right.status.rank ∨
        left.status.rank = right.status.rank ∧ right.updatedSeq ≤ left.updatedSeq }

def isTransferHidden (gui : EtleGui) (transfer : GuiTransfer) : Bool :=
  transfer.status.isFinished && transfer.hiddenKeys.any gui.hiddenFinishedTransfers.contains

/-- Put a card in the place of the one it replaces, if any, unless it is hidden. -/
def upsertTransfer (gui : EtleGui) (transfer : GuiTransfer) : EtleGui :=
  if gui.isTransferHidden transfer then
    gui
  else
    let replaced (candidate : GuiTransfer) : Bool :=
      candidate.id = transfer.id ||
      (transfer.shareId.isSome && candidate.shareId = transfer.shareId &&
        candidate.kind = transfer.kind) ||
      (transfer.shareId.isNone && candidate.shareId.isNone && candidate.kind = transfer.kind &&
        candidate.label = transfer.label)
    let transfers :=
      if gui.transfers.any replaced then
        modifyFirst replaced (fun _ => transfer) gui.transfers
      else
        gui.transfers ++ [transfer]
    { gui with transfers }.sortTransfers

def clearFinishedTransfers (gui : EtleGui) : EtleGui :=
  let finished := gui.transfers.filter (·.status.isFinished)
  { gui with
    hiddenFinishedTransfers :=
      (finished.flatMap GuiTransfer.hiddenKeys).foldl (·.insert ·) gui.hiddenFinishedTransfers
    transfers := gui.transfers.filter (!·.status.isFinished) }

/-- Bring the card of a share up to date; only a running download gets a new one. -/
def syncExistingTransferFromShare (gui : EtleGui) (share : IpcShareSummary) : EtleGui :=
  let mode := share.mode.getD "unknown"
  let done := shareIsComplete share
  let (seq, gui) := gui.bumpSeq
  if gui.transfers.any (·.shareId = some share.shareId) then
    let sync (transfer : GuiTransfer) : GuiTransfer :=
      let transfer := { transfer with
        label := share.name
        completedChunks := share.completedChunks
        totalChunks := share.totalChunks
        updatedSeq := seq }
      if done && (mode = "completed" || mode = "seeding") then
        { transfer with
          status := .done
          detail :=
            if transfer.kind = .seed then "encrypted and stored"
            else if containsText transfer.detail "saved" then transfer.detail
            else "completed in library" }
      else if mode = "downloading" && !transfer.status.isFinished then
        { transfer with
          status := .running
          detail :=
            if isSpecificProgressDetail transfer.detail then transfer.detail
            else "waiting for live progress" }
      else
        transfer
    { gui with
      transfers := modifyFirst (·.shareId = some share.shareId) sync gui.transfers }.sortTransfers
  else if mode = "downloading" && !done then
    gui.upsertTransfer {
      id := "library:" ++ share.shareId.display ++ ":" ++ mode
      kind := .download
      label := share.name
      shareId := some share.shareId
      status := .running
      completedChunks := share.completedChunks
      totalChunks := share.totalChunks
      bytesDone := 0
      totalBytes := 0
      bytesPerSecond := 0
      detail := "waiting for live progress"
      updatedSeq := seq }
  else
    gui

def syncExistingTransfersFromShares (gui : EtleGui) : EtleGui :=
  gui.shares.foldl syncExistingTransferFromShare gui

/-- A complete share finishes the seeding that has its name or identifier, or the only one whose
share is not known yet. -/
def markSeedCompletedFromShare (gui : EtleGui) (share : IpcShareSummary) : EtleGui :=
  if !shareIsComplete share then
    gui
  else
    let unboundRunning (transfer : GuiTransfer) : Bool :=
      transfer.kind = .seed && transfer.shareId.isNone && !transfer.status.isFinished
    let onlyOne : Bool := gui.transfers.countP unboundRunning = 1
    let (seq, gui) := gui.bumpSeq
    let matched (transfer : GuiTransfer) : Bool :=
      transfer.kind = .seed && !transfer.status.isFinished &&
        (transfer.label = share.name || transfer.shareId = some share.shareId ||
          (onlyOne && unboundRunning transfer))
    let finish (transfer : GuiTransfer) : GuiTransfer :=
      if matched transfer then
        { transfer with
          shareId := some share.shareId
          label := share.name
          status := .done
          completedChunks := share.completedChunks
          totalChunks := share.totalChunks
          detail := "encrypted and stored"
          updatedSeq := seq }
      else
        transfer
    let updated := gui.transfers.any matched
    let gui := { gui with transfers := gui.transfers.map finish }
    let gui :=
      if !updated && share.mode = some "seeding" then gui.syncExistingTransferFromShare share
      else gui
    gui.sortTransfers

/-- Fail the unfinished card that was updated last. -/
def markRecentRunningFailed (gui : EtleGui) (reason : String) : EtleGui :=
  let unfinished := gui.transfers.zipIdx.filter fun (transfer, _) => !transfer.status.isFinished
  let transfers := match lastMax (fun (transfer, _) => transfer.updatedSeq) unfinished with
    | some (_, position) =>
        gui.transfers.modify position fun transfer =>
          { transfer with status := .failed, detail := compactLogLine reason }
    | none => gui.transfers
  { gui with transfers }.sortTransfers

/-- Change the card of the download of a share, if there is one. -/
def modifyDownload (gui : EtleGui) (shareId : ShareId) (change : GuiTransfer → GuiTransfer) :
    EtleGui :=
  { gui with transfers := modifyFirst (·.isOf shareId .download) change gui.transfers }

/-- The progress of a task, seeding or downloading according to its name. -/
def applyTaskProgress (gui : EtleGui) (jobId : Option String) (task label : String)
    (completedChunks totalChunks : Nat) (bytesDone totalBytes bytesPerSecond : UInt64) : EtleGui :=
  let kind : TransferKind :=
    if ["seed", "encrypt", "staged"].any (containsText task) then .seed else .download
  let shareId := ShareId.fromStr label
  let shareName := shareId.bind fun shareId =>
    (gui.shares.find? (·.shareId = shareId)).map (·.name)
  let cardLabel := shareName.getD (fileLabel label)
  let completed : Bool := 0 < totalChunks && totalChunks ≤ completedChunks
  let status : TransferStatus :=
    if containsText task "completed" || (kind = .seed && completed) then .done else .running
  let (seq, gui) := gui.bumpSeq
  gui.upsertTransfer {
    id := jobId.getD (kind.label ++ ":" ++ cardLabel)
    kind, label := cardLabel, shareId, status, completedChunks, totalChunks, bytesDone, totalBytes
    bytesPerSecond, detail := friendlyTaskDetail task, updatedSeq := seq }

/-! ## Cards and the library -/

/-- What the library page shows and asks about. -/
def libraryPage (gui : EtleGui) : List IpcShareSummary × Option Nat × Option ShareId :=
  (gui.shares, gui.selectedShare, gui.pendingDeleteShare)

@[simp]
theorem libraryPage_bumpSeq (gui : EtleGui) : gui.bumpSeq.2.libraryPage = gui.libraryPage := rfl

@[simp]
theorem libraryPage_sortTransfers (gui : EtleGui) :
    gui.sortTransfers.libraryPage = gui.libraryPage := rfl

@[simp]
theorem libraryPage_upsertTransfer (gui : EtleGui) (transfer : GuiTransfer) :
    (gui.upsertTransfer transfer).libraryPage = gui.libraryPage := by
  unfold upsertTransfer
  split <;> rfl

@[simp]
theorem libraryPage_clearFinishedTransfers (gui : EtleGui) :
    gui.clearFinishedTransfers.libraryPage = gui.libraryPage := rfl

@[simp]
theorem libraryPage_modifyDownload (gui : EtleGui) (shareId : ShareId)
    (change : GuiTransfer → GuiTransfer) :
    (gui.modifyDownload shareId change).libraryPage = gui.libraryPage := rfl

@[simp]
theorem libraryPage_markRecentRunningFailed (gui : EtleGui) (reason : String) :
    (gui.markRecentRunningFailed reason).libraryPage = gui.libraryPage := rfl

@[simp]
theorem libraryPage_syncExistingTransferFromShare (gui : EtleGui) (share : IpcShareSummary) :
    (gui.syncExistingTransferFromShare share).libraryPage = gui.libraryPage := by
  unfold syncExistingTransferFromShare
  simp only
  split
  · rfl
  · split
    · rw [libraryPage_upsertTransfer, libraryPage_bumpSeq]
    · rfl

@[simp]
theorem libraryPage_syncExistingTransfersFromShares (gui : EtleGui) :
    gui.syncExistingTransfersFromShares.libraryPage = gui.libraryPage := by
  have all (shares : List IpcShareSummary) (start : EtleGui) :
      (shares.foldl syncExistingTransferFromShare start).libraryPage = start.libraryPage := by
    induction shares generalizing start with
    | nil => rfl
    | cons share shares ih => rw [List.foldl_cons, ih, libraryPage_syncExistingTransferFromShare]
  exact all gui.shares gui

@[simp]
theorem libraryPage_markSeedCompletedFromShare (gui : EtleGui) (share : IpcShareSummary) :
    (gui.markSeedCompletedFromShare share).libraryPage = gui.libraryPage := by
  unfold markSeedCompletedFromShare
  split
  · rfl
  · simp only [libraryPage_sortTransfers]
    split
    · rw [libraryPage_syncExistingTransferFromShare]
      rfl
    · rfl

@[simp]
theorem libraryPage_applyTaskProgress (gui : EtleGui) (jobId : Option String) (task label : String)
    (completedChunks totalChunks : Nat) (bytesDone totalBytes bytesPerSecond : UInt64) :
    (gui.applyTaskProgress jobId task label completedChunks totalChunks bytesDone totalBytes
      bytesPerSecond).libraryPage = gui.libraryPage := by
  unfold applyTaskProgress
  rw [libraryPage_upsertTransfer, libraryPage_bumpSeq]

end EtleGui

end Etle
