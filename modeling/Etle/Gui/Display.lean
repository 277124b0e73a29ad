import Etle.Gui.LibraryPage

/-!
# What the client displays

Every message leaves the cards in the order in which they are shown, no card has a number that has
not been given out, and the row that is selected is one of the list.
-/

namespace Etle

/-- A changed list has the elements it had and those that were changed. -/
theorem mem_of_mem_modifyFirst {α : Type} {wanted : α → Bool} {change : α → α} {list : List α}
    {element : α} (member : element ∈ modifyFirst wanted change list) :
    element ∈ list ∨ ∃ old ∈ list, element = change old := by
  induction list with
  | nil => cases member
  | cons first rest ih =>
      unfold modifyFirst at member
      split at member <;> rcases List.mem_cons.mp member with rfl | later
      · exact .inr ⟨first, .head _, rfl⟩
      · exact .inl (.tail _ later)
      · exact .inl (.head _)
      · rcases ih later with kept | ⟨old, here, rfl⟩
        · exact .inl (.tail _ kept)
        · exact .inr ⟨old, .tail _ here, rfl⟩

/-- The order in which cards are shown. -/
def GuiTransfer.Before (left right : GuiTransfer) : Prop :=
  left.status.rank < right.status.rank ∨
    left.status.rank = right.status.rank ∧ right.updatedSeq ≤ left.updatedSeq

instance : Std.Total fun left right : GuiTransfer =>
    left.status.rank < right.status.rank ∨
      left.status.rank = right.status.rank ∧ right.updatedSeq ≤ left.updatedSeq :=
  ⟨fun left right => by omega⟩

instance : IsTrans GuiTransfer fun left right =>
    left.status.rank < right.status.rank ∨
      left.status.rank = right.status.rank ∧ right.updatedSeq ≤ left.updatedSeq :=
  ⟨fun first second third => by omega⟩

namespace EtleGui

/-! ## Cards -/

/-- The number has been given out: it is older than the next one, until the numbers run out. -/
def Issued (gui : EtleGui) (seq : Nat) : Prop :=
  seq < gui.nextTransferSeq ∨ gui.nextTransferSeq = 2 ^ 64 - 1

def AllIssued (gui : EtleGui) : Prop := ∀ card ∈ gui.transfers, gui.Issued card.updatedSeq

def CardsSorted (gui : EtleGui) : Prop := gui.transfers.Pairwise GuiTransfer.Before

section Cards

variable {gui : EtleGui} {card : GuiTransfer}

theorem issued_bumpSeq {seq : Nat} (issued : gui.Issued seq) : gui.bumpSeq.2.Issued seq := by
  simp only [Issued, bumpSeq] at issued ⊢
  omega

/-- The number of an update counts as given out. -/
theorem issued_bumpSeq_self : gui.bumpSeq.2.Issued gui.bumpSeq.1 := by
  simp only [Issued, bumpSeq]
  omega

theorem AllIssued.bumpSeq (issued : gui.AllIssued) : gui.bumpSeq.2.AllIssued :=
  fun card member => issued_bumpSeq (issued card member)

theorem AllIssued.sortTransfers (issued : gui.AllIssued) : gui.sortTransfers.AllIssued :=
  fun card member => issued card ((List.mem_insertionSort _).mp member)

theorem cardsSorted_sortTransfers (gui : EtleGui) : gui.sortTransfers.CardsSorted :=
  List.pairwise_insertionSort (fun left right : GuiTransfer =>
    left.status.rank < right.status.rank ∨
      left.status.rank = right.status.rank ∧ right.updatedSeq ≤ left.updatedSeq) gui.transfers

/-- A card in the place of another one. -/
theorem AllIssued.upsertTransfer (issued : gui.AllIssued) (own : gui.Issued card.updatedSeq) :
    (gui.upsertTransfer card).AllIssued := by
  unfold EtleGui.upsertTransfer
  dsimp only
  split
  · exact issued
  · refine AllIssued.sortTransfers fun other member => ?_
    dsimp only at member
    split at member
    · rcases mem_of_mem_modifyFirst member with kept | ⟨-, -, rfl⟩
      · exact issued other kept
      · exact own
    · rcases List.mem_append.mp member with kept | added
      · exact issued other kept
      · rw [List.mem_singleton.mp added]
        exact own

theorem CardsSorted.upsertTransfer (sorted : gui.CardsSorted) :
    (gui.upsertTransfer card).CardsSorted := by
  unfold EtleGui.upsertTransfer
  dsimp only
  split
  · exact sorted
  · exact cardsSorted_sortTransfers _

/-- Changed cards keep their number or get one that was given out. -/
theorem AllIssued.modifyFirst (issued : gui.AllIssued) {wanted : GuiTransfer → Bool}
    {change : GuiTransfer → GuiTransfer}
    (stamps : ∀ card, gui.Issued card.updatedSeq → gui.Issued (change card).updatedSeq) :
    AllIssued { gui with transfers := Etle.modifyFirst wanted change gui.transfers } := by
  intro card member
  rcases mem_of_mem_modifyFirst member with kept | ⟨old, here, rfl⟩
  · exact issued card kept
  · exact stamps old (issued old here)

theorem AllIssued.modify (issued : gui.AllIssued) (position : Nat)
    {change : GuiTransfer → GuiTransfer}
    (stamps : ∀ card, gui.Issued card.updatedSeq → gui.Issued (change card).updatedSeq) :
    AllIssued { gui with transfers := gui.transfers.modify position change } := by
  intro card member
  obtain ⟨index, found⟩ := List.mem_iff_getElem?.mp member
  obtain ⟨old, here, rfl⟩ := Option.map_eq_some_iff.mp
    ((List.getElem?_modify ..).symm.trans found)
  split
  · exact stamps old (issued old (List.mem_of_getElem? here))
  · exact issued old (List.mem_of_getElem? here)

theorem AllIssued.filter (issued : gui.AllIssued) (wanted : GuiTransfer → Bool) :
    AllIssued { gui with transfers := gui.transfers.filter wanted } :=
  fun card member => issued card (List.mem_of_mem_filter member)

theorem AllIssued.syncExistingTransferFromShare (issued : gui.AllIssued)
    (share : IpcShareSummary) : (gui.syncExistingTransferFromShare share).AllIssued := by
  unfold EtleGui.syncExistingTransferFromShare
  dsimp only
  split
  · refine (issued.bumpSeq.modifyFirst fun card _ => ?_).sortTransfers
    split
    · exact issued_bumpSeq_self
    · split <;> exact issued_bumpSeq_self
  · split
    · exact issued.bumpSeq.upsertTransfer issued_bumpSeq_self
    · exact issued.bumpSeq

theorem CardsSorted.syncExistingTransferFromShare (sorted : gui.CardsSorted)
    (share : IpcShareSummary) : (gui.syncExistingTransferFromShare share).CardsSorted := by
  have bumped : gui.bumpSeq.2.CardsSorted := sorted
  unfold EtleGui.syncExistingTransferFromShare
  dsimp only
  split
  · exact cardsSorted_sortTransfers _
  · split
    · exact bumped.upsertTransfer
    · exact bumped

/-- The cards have numbers that were given out, and stand in their order. -/
structure CardsInOrder (gui : EtleGui) : Prop where
  issued : gui.AllIssued
  sorted : gui.CardsSorted

theorem AllIssued.inOrder (issued : gui.AllIssued) : gui.sortTransfers.CardsInOrder :=
  ⟨issued.sortTransfers, cardsSorted_sortTransfers gui⟩

namespace CardsInOrder

theorem bumpSeq (ordered : gui.CardsInOrder) : gui.bumpSeq.2.CardsInOrder :=
  ⟨ordered.issued.bumpSeq, ordered.sorted⟩

theorem upsertTransfer (ordered : gui.CardsInOrder) (own : gui.Issued card.updatedSeq) :
    (gui.upsertTransfer card).CardsInOrder :=
  ⟨ordered.issued.upsertTransfer own, ordered.sorted.upsertTransfer⟩

/-- A card that is new or new again. -/
theorem upsertNew (ordered : gui.CardsInOrder) (own : card.updatedSeq = gui.bumpSeq.1) :
    (gui.bumpSeq.2.upsertTransfer card).CardsInOrder :=
  ordered.bumpSeq.upsertTransfer (own ▸ issued_bumpSeq_self)

theorem filter (ordered : gui.CardsInOrder) (wanted : GuiTransfer → Bool) :
    CardsInOrder { gui with transfers := gui.transfers.filter wanted } :=
  ⟨ordered.issued.filter wanted, ordered.sorted.filter wanted⟩

theorem syncExistingTransferFromShare (ordered : gui.CardsInOrder) (share : IpcShareSummary) :
    (gui.syncExistingTransferFromShare share).CardsInOrder :=
  ⟨ordered.issued.syncExistingTransferFromShare share,
    ordered.sorted.syncExistingTransferFromShare share⟩

theorem syncExistingTransfersFromShares (ordered : gui.CardsInOrder) :
    gui.syncExistingTransfersFromShares.CardsInOrder := by
  unfold EtleGui.syncExistingTransfersFromShares
  generalize gui.shares = shares
  induction shares generalizing gui with
  | nil => exact ordered
  | cons share shares ih => exact ih (ordered.syncExistingTransferFromShare share)

theorem markSeedCompletedFromShare (ordered : gui.CardsInOrder) (share : IpcShareSummary) :
    (gui.markSeedCompletedFromShare share).CardsInOrder := by
  unfold EtleGui.markSeedCompletedFromShare
  dsimp only
  split
  · exact ordered
  · refine AllIssued.inOrder ?_
    have finished : ∀ finish : GuiTransfer → GuiTransfer,
        (∀ card, finish card = card ∨ (finish card).updatedSeq = gui.bumpSeq.1) →
        AllIssued { gui.bumpSeq.2 with transfers := gui.bumpSeq.2.transfers.map finish } := by
      intro finish stamps card member
      obtain ⟨old, here, rfl⟩ := List.mem_map.mp member
      rcases stamps old with same | stamped
      · rw [same]
        exact ordered.issued.bumpSeq old here
      · rw [stamped]
        exact issued_bumpSeq_self
    split
    · refine AllIssued.syncExistingTransferFromShare (finished _ fun card => ?_) share
      split
      · exact .inr rfl
      · exact .inl rfl
    · refine finished _ fun card => ?_
      split
      · exact .inr rfl
      · exact .inl rfl

theorem markRecentRunningFailed (ordered : gui.CardsInOrder) (reason : String) :
    (gui.markRecentRunningFailed reason).CardsInOrder := by
  unfold EtleGui.markRecentRunningFailed
  dsimp only
  split
  · refine AllIssued.inOrder (ordered.issued.modify _ fun card issued => ?_)
    exact issued
  · exact ordered.issued.inOrder

theorem applyTaskProgress (ordered : gui.CardsInOrder) (jobId : Option String)
    (task label : String) (completedChunks totalChunks : Nat)
    (bytesDone totalBytes bytesPerSecond : UInt64) :
    (gui.applyTaskProgress jobId task label completedChunks totalChunks bytesDone totalBytes
      bytesPerSecond).CardsInOrder :=
  ordered.upsertNew rfl

/-- Cards and numbers that are left alone stay in order. -/
theorem keep {next : EtleGui} (ordered : gui.CardsInOrder)
    (cards : next.transfers = gui.transfers)
    (numbers : next.nextTransferSeq = gui.nextTransferSeq) : next.CardsInOrder := by
  refine ⟨fun card member => ?_, ?_⟩
  · rw [Issued, numbers]
    exact ordered.issued card (cards ▸ member)
  · rw [CardsSorted, cards]
    exact ordered.sorted

theorem applySocket (ordered : gui.CardsInOrder) : gui.applySocket.1.CardsInOrder := by
  unfold EtleGui.applySocket
  dsimp only
  split
  · exact ordered
  · split
    · exact ordered.keep rfl rfl
    · exact ordered

theorem spawnRefresh (ordered : gui.CardsInOrder) : gui.spawnRefresh.1.CardsInOrder := by
  unfold EtleGui.spawnRefresh
  split
  · exact ordered
  · exact ordered.keep rfl rfl

theorem startSeedSelected (ordered : gui.CardsInOrder) :
    gui.startSeedSelected.1.CardsInOrder := by
  unfold EtleGui.startSeedSelected
  dsimp only
  split
  · exact ordered
  · split
    · exact ordered.keep rfl rfl
    · have removed : (gui.removeSeedFile (gui.selectedSeedFile.getD 0)).CardsInOrder :=
        ordered.keep rfl rfl
      unfold EtleGui.startSeedPath
      dsimp only
      apply removed.upsertNew
      rfl

theorem startDownloadFromForm (ordered : gui.CardsInOrder) (shareIdText peersText outputText
    authPskText discoveryMulticastText : String) :
    (gui.startDownloadFromForm shareIdText peersText outputText authPskText
      discoveryMulticastText).1.CardsInOrder := by
  unfold EtleGui.startDownloadFromForm
  split
  · exact ordered
  · have renamed : CardsInOrder { gui with authPsk := authPskText } := ordered.keep rfl rfl
    dsimp only
    apply upsertNew renamed
    rfl

theorem applyIpcResponse (ordered : gui.CardsInOrder) (kind : IpcRequestKind)
    (result : Except String IpcResponse) : (gui.applyIpcResponse kind result).CardsInOrder := by
  have online : CardsInOrder { gui with connected := true } := ordered.keep rfl rfl
  have offline : CardsInOrder { gui with connected := false, status := "request failed" } :=
    ordered.keep rfl rfl
  cases result with
  | error error =>
      cases kind with
      | seed | download => exact offline.markRecentRunningFailed error
      | ping | listShares | deleteShare => exact ordered.keep rfl rfl
  | ok response =>
      cases response with
      | pong | ack message => exact ordered.keep rfl rfl
      | shares shares =>
          have listed : (gui.setShares shares).CardsInOrder := ordered.keep rfl rfl
          exact listed.syncExistingTransfersFromShares
      | shareAdded share =>
          have added : ({ gui with connected := true }.upsertShare share).CardsInOrder :=
            online.keep rfl rfl
          exact added.markSeedCompletedFromShare share
      | shareDeleted shareId name =>
          exact (ordered.filter _).keep rfl rfl
      | transferQueued shareId jobId =>
          refine AllIssued.inOrder ?_
          split
          · exact online.bumpSeq.issued.modifyFirst fun _ _ => issued_bumpSeq_self
          · exact online.bumpSeq.issued.upsertTransfer issued_bumpSeq_self
      | transferCompleted shareId output fileName fileSize chunks =>
          exact (online.bumpSeq.issued.modifyFirst fun _ _ => issued_bumpSeq_self).inOrder
      | error message =>
          cases kind with
          | seed | download => exact ordered.markRecentRunningFailed message
          | ping | listShares | deleteShare => exact ordered

theorem applyIpcEvent (ordered : gui.CardsInOrder) (event : IpcEvent) :
    (gui.applyIpcEvent event).CardsInOrder := by
  cases event with
  | serverStarted | serverStopped | peerConnected => exact ordered.keep rfl rfl
  | shareUpdated share =>
      have updated : (gui.upsertShare share).CardsInOrder := ordered.keep rfl rfl
      exact (updated.markSeedCompletedFromShare share).syncExistingTransferFromShare share
  | shareDeleted shareId => exact (ordered.filter _).keep rfl rfl
  | chunkCompleted shareId completedChunks totalChunks =>
      exact (ordered.bumpSeq.issued.modifyFirst fun _ _ => issued_bumpSeq_self).inOrder
  | taskProgress jobId task label completedChunks totalChunks bytesDone totalBytes
      bytesPerSecond =>
      exact ordered.applyTaskProgress jobId task label completedChunks totalChunks bytesDone
        totalBytes bytesPerSecond
  | transferProgress jobId shareId completedChunks totalChunks bytesDone totalBytes
      bytesPerSecond =>
      refine ordered.upsertNew ?_
      rfl
  | transferCompleted jobId shareId output =>
      refine AllIssued.inOrder ?_
      dsimp only
      split
      · exact ordered.bumpSeq.issued.modify _ fun _ _ => issued_bumpSeq_self
      · exact ordered.bumpSeq.issued
  | error message => exact ordered.markRecentRunningFailed message

/-- Every message leaves the cards in order. -/
theorem update (ordered : gui.CardsInOrder) (message : AppInput) :
    (gui.update message).1.CardsInOrder := by
  cases message with
  | applySocketText value | applySettings socketPath authPsk =>
      apply applySocket
      exact ordered.keep rfl rfl
  | connect =>
      dsimp only [EtleGui.update, EtleGui.connect]
      split <;> exact ordered.keep rfl rfl
  | startWatch =>
      dsimp only [EtleGui.update, EtleGui.startWatch]
      split
      · exact ordered.keep rfl rfl
      · split <;> exact ordered.keep rfl rfl
  | selectShare index =>
      dsimp only [EtleGui.update]
      split <;> exact ordered.keep rfl rfl
  | deleteSelectedShare =>
      dsimp only [EtleGui.update, EtleGui.requestDeleteSelectedShare]
      split <;> exact ordered.keep rfl rfl
  | confirmDeleteSelectedShare =>
      dsimp only [EtleGui.update, EtleGui.confirmDeleteSelectedShare]
      split
      · exact ordered.keep rfl rfl
      · split
        · dsimp only [EtleGui.requestDeleteSelectedShare]
          split <;> exact ordered.keep rfl rfl
        · exact ordered.keep rfl rfl
  | cancelDeleteShare =>
      dsimp only [EtleGui.update, EtleGui.cancelDeleteShare]
      split <;> exact ordered.keep rfl rfl
  | refresh => exact ordered.spawnRefresh
  | autoRefreshTick elapsedSecs =>
      dsimp only [EtleGui.update]
      split
      · exact ordered.spawnRefresh
      · exact ordered
  | ipcResponse socketPath kind result =>
      dsimp only [EtleGui.update]
      split
      · split
        · apply applyIpcResponse
          exact ordered.keep rfl rfl
        · exact ordered.applyIpcResponse kind result
      · exact ordered
  | ipcEvent generation event =>
      dsimp only [EtleGui.update]
      split
      · exact ordered.applyIpcEvent event
      · exact ordered
  | startSeedSelected => exact ordered.startSeedSelected
  | startDownloadFromForm shareId peers output authPsk discoveryMulticast =>
      exact ordered.startDownloadFromForm shareId peers output authPsk discoveryMulticast
  | clearFinishedTransfers => exact (ordered.filter _).keep rfl rfl
  | ipcWatchStopped generation error =>
      dsimp only [EtleGui.update]
      split <;> exact ordered.keep rfl rfl
  | addSeedPathText value =>
      dsimp only [EtleGui.update, EtleGui.addSeedPathText, EtleGui.addSeedFile]
      split
      · exact ordered
      · split <;> exact ordered.keep rfl rfl
  | addSeedFile path =>
      dsimp only [EtleGui.update, EtleGui.addSeedFile]
      split <;> exact ordered.keep rfl rfl
  | selectSeedFile index =>
      dsimp only [EtleGui.update]
      split <;> exact ordered.keep rfl rfl
  | removeSelectedSeedFile =>
      dsimp only [EtleGui.update, EtleGui.removeSelectedSeedFile]
      split
      · exact ordered
      · split <;> exact ordered.keep rfl rfl
  | copySelectedShareId | clearLog | browseSeedFiles | clearSeedFiles | setSeedChunkSize
  | setParallelism | setRequestWindow | setDiscoveryPort | setDiscoveryTimeout | setResume
  | setAutoRefresh | setClearActivityOnTask | setRefreshInterval | setActivityLimit =>
      exact ordered.keep rfl rfl

theorem new (init : GuiInit) : (EtleGui.new init).CardsInOrder :=
  ⟨fun _ member => absurd member List.not_mem_nil, .nil⟩

end CardsInOrder

end Cards

/-! ## The selected row -/

theorem length_modifyFirst {α : Type} (wanted : α → Bool) (change : α → α) (list : List α) :
    (modifyFirst wanted change list).length = list.length := by
  induction list with
  | nil => rfl
  | cons first rest ih =>
      unfold modifyFirst
      split
      · rfl
      · rw [List.length_cons, List.length_cons, ih]

/-- The selected share is listed. -/
def RowListed (gui : EtleGui) : Prop :=
  ∀ row, gui.selectedShare = some row → row < gui.shares.length

theorem length_le_upsertShare (gui : EtleGui) (share : IpcShareSummary) :
    gui.shares.length ≤ (gui.upsertShare share).shares.length := by
  unfold upsertShare
  dsimp only
  split
  · rw [length_modifyFirst]
  · rw [List.length_append]
    exact Nat.le_add_right _ _

/-- Every message leaves a listed row selected. -/
theorem RowListed.move {gui next : EtleGui} {message : AppInput} (listed : gui.RowListed)
    (move : LibraryMove gui message next) : next.RowListed := by
  have of_page (other : EtleGui) (page : next.libraryPage = other.libraryPage)
      (inside : other.RowListed) : next.RowListed := by
    simp only [libraryPage, Prod.mk.injEq] at page
    obtain ⟨shares, row, -⟩ := page
    rw [RowListed, shares, row]
    exact inside
  cases move with
  | @select index _ inside page =>
      apply of_page { gui with selectedShare := some index, pendingDeleteShare := none }
      · exact page
      · intro row chosen
        exact Option.some.inj chosen ▸ inside
  | @request share _ selected page | @requestInstead share _ selected other page =>
      apply of_page { gui with pendingDeleteShare := some share.shareId }
      · exact page
      · exact listed
  | confirm page | cancel page =>
      apply of_page { gui with pendingDeleteShare := none }
      · exact page
      · exact listed
  | remove deleted page =>
      refine of_page _ page fun row chosen => ?_
      obtain ⟨selected, -, found⟩ := Option.bind_eq_some_iff.mp chosen
      exact (List.findIdx?_eq_some_iff_findIdx_eq.mp found).1
  | list page =>
      refine of_page _ page fun row chosen => ?_
      obtain ⟨-, inside⟩ := Option.filter_eq_some_iff.mp chosen
      exact of_decide_eq_true inside
  | @add _ _ share _ page | @updateShare _ share _ page =>
      refine of_page _ page fun row chosen => ?_
      exact (listed row chosen).trans_le (gui.length_le_upsertShare share)
  | changeSocket changed page =>
      apply of_page { gui with shares := [], selectedShare := none }
      · exact page
      · intro row chosen
        cases chosen
  | keep still page => exact of_page _ page listed

end EtleGui

open EtleGui

/-- In every state that messages lead to, the cards stand in the order in which they are shown,
their numbers have been given out, and the selected row is listed. -/
theorem display_in_order {init : GuiInit} {gui : EtleGui}
    (reach : guiMachine.Reaches (.new init) gui) : gui.CardsInOrder ∧ gui.RowListed := by
  have preserved (before : EtleGui) (message : AppInput) (next : EtleGui)
      (holds : before.CardsInOrder ∧ before.RowListed)
      (step : guiMachine.step before message = some next) :
      next.CardsInOrder ∧ next.RowListed := by
    obtain rfl : (before.update message).1 = next := Option.some.inj step
    exact ⟨holds.1.update message, holds.2.move (before.libraryMove_of_update message)⟩
  exact Machine.invariant_of_reaches preserved ⟨.new init, nofun⟩ reach

/-- A share is listed and selected, and a file is seeded. -/
theorem display_in_order_seeding :
    ∃ gui, guiMachine.Reaches startedGui gui ∧ gui.CardsInOrder ∧ gui.RowListed ∧
      gui.selectedShare = some 0 ∧ gui.seedFiles = [] := by
  have ends : (guiMachine.run startedGui [listing [listedShare "notes" 7], .selectShare 0,
    .addSeedFile "films", .startSeedSelected]).isSome := rfl
  have reach : guiMachine.Reaches startedGui _ := ⟨_, (Option.some_get ends).symm⟩
  have shown := display_in_order reach
  exact ⟨_, reach, shown.1, shown.2, rfl, rfl⟩

end Etle
