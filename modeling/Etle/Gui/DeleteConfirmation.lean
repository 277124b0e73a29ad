import Etle.Gui.LibraryPage

/-!
# Deleting what has been confirmed

A command that deletes a share is sent while this share is selected and the confirmation panel names
it, and nothing has taken the confirmation back since it was asked for.
-/

namespace Etle

namespace EtleGui

/-- The message makes the client send a command that deletes the share. -/
def SendsDelete (gui : EtleGui) (message : AppInput) (shareId : ShareId) : Prop :=
  ∃ socketPath kind,
    GuiEffect.sendCommand socketPath kind (.deleteShare shareId) ∈ (gui.update message).2

/-- The message asks for a confirmation for the share. -/
def AsksFor (gui : EtleGui) (shareId : ShareId) (message : AppInput) : Prop :=
  (message = .deleteSelectedShare ∨
    message = .confirmDeleteSelectedShare ∧ gui.pendingDeleteShare ≠ some shareId) ∧
  gui.selectedShareSummary.map (·.shareId) = some shareId

/-! ## The confirmation -/

theorem withdraws_iff_of_appliedDeletion {gui : EtleGui} {message : AppInput} {deleted : ShareId}
    (applied : gui.appliedDeletion message = some deleted) (shareId : ShareId) :
    gui.Withdraws shareId message ↔ deleted = shareId := by
  cases message with
  | ipcResponse socketPath kind result => rw [Withdraws, applied, Option.some.injEq] <;> simp
  | ipcEvent generation event => rw [Withdraws, applied, Option.some.injEq] <;> simp
  | _ => simp at applied

theorem pendingDeleteShare_removeShare {gui : EtleGui} {deleted shareId : ShareId} :
    (gui.removeShare deleted).pendingDeleteShare = some shareId ↔
      gui.pendingDeleteShare = some shareId ∧ deleted ≠ shareId := by
  simp only [removeShare]
  split
  next same => simp [same]
  next other =>
      refine ⟨fun waits => ⟨waits, ?_⟩, And.left⟩
      rintro rfl
      exact other waits

/-- A share waits for its confirmation because the message asks for it, or it already waited and the
message does not withdraw this. -/
theorem asksFor_or_waits {gui next : EtleGui} {message : AppInput} {shareId : ShareId}
    (move : LibraryMove gui message next) (waits : next.pendingDeleteShare = some shareId) :
    gui.AsksFor shareId message ∨
      gui.pendingDeleteShare = some shareId ∧ ¬gui.Withdraws shareId message := by
  have pending {page : List IpcShareSummary × Option Nat × Option ShareId}
      (same : next.libraryPage = page) : page.2.2 = some shareId := same ▸ waits
  cases move with
  | select inside page => exact absurd (pending page) nofun
  | request selected page => exact .inl ⟨.inl rfl, selected ▸ pending page⟩
  | requestInstead selected other page =>
      have asked := pending page
      exact .inl ⟨.inr ⟨rfl, asked ▸ other⟩, selected ▸ asked⟩
  | confirm page => exact absurd (pending page) nofun
  | cancel page => exact absurd (pending page) nofun
  | remove applied page =>
      obtain ⟨waited, other⟩ := pendingDeleteShare_removeShare.mp (pending page)
      exact .inr ⟨waited, mt (withdraws_iff_of_appliedDeletion applied shareId).mp other⟩
  | list page => exact .inr ⟨pending page, by simp⟩
  | add page => exact .inr ⟨pending page, by simp⟩
  | updateShare page => exact .inr ⟨pending page, by simp⟩
  | changeSocket changed page =>
      refine .inr ⟨pending page, ?_⟩
      cases message with
      | applySocketText | applySettings => simp
      | _ => exact absurd changed nofun
  | keep still page => exact .inr ⟨pending page, still shareId⟩

/-! ## The command -/

theorem request_of_buildDownloadCommandFrom {gui : EtleGui} {shareIdText peersText outputText
    authPskText discoveryMulticastText : String} {command : IpcCommand} {shareId : ShareId}
    (built : gui.buildDownloadCommandFrom shareIdText peersText outputText authPskText
      discoveryMulticastText = some (command, shareId)) :
    ∃ request, command = .download request ∨ command = .downloadFresh request := by
  simp only [buildDownloadCommandFrom, Option.bind_eq_bind, Option.bind_eq_some_iff,
    Option.pure_def, Option.some.injEq, Prod.mk.injEq] at built
  obtain ⟨parsed, -, peers, -, multicast, -, rfl, -⟩ := built
  split
  · exact ⟨_, .inl rfl⟩
  · exact ⟨_, .inr rfl⟩

theorem sendsDelete_confirm_iff {gui : EtleGui} {shareId : ShareId} :
    gui.SendsDelete .confirmDeleteSelectedShare shareId ↔
      gui.selectedShareSummary.map (·.shareId) = some shareId ∧
        gui.pendingDeleteShare = some shareId := by
  simp only [SendsDelete, update, confirmDeleteSelectedShare]
  split
  next nothing => simp [nothing]
  next share selected =>
      split
      next other =>
          simp only [List.not_mem_nil, exists_false, selected, Option.map_some, Option.some.injEq,
            false_iff, not_and]
          rintro rfl
          exact other
      next same =>
          rw [not_not] at same
          simp [selected, same, eq_comm]

/-- Only a confirmation sends a command that deletes a share. -/
theorem confirm_of_sendsDelete {gui : EtleGui} {message : AppInput} {shareId : ShareId}
    (sends : gui.SendsDelete message shareId) : message = .confirmDeleteSelectedShare := by
  obtain ⟨socketPath, kind, sent⟩ := sends
  cases message with
  | confirmDeleteSelectedShare => rfl
  | applySocketText value | applySettings socketPath authPsk =>
      simp only [update, applySocket] at sent
      split at sent <;> simp at sent
  | connect =>
      simp only [update, connect] at sent
      split at sent <;> simp at sent
  | refresh =>
      simp only [update, spawnRefresh] at sent
      split at sent <;> simp at sent
  | autoRefreshTick elapsedSecs =>
      simp only [update, spawnRefresh] at sent
      split at sent
      · split at sent <;> simp at sent
      · simp at sent
  | startWatch =>
      simp only [update, startWatch] at sent
      split at sent
      · simp at sent
      · split at sent <;> simp at sent
  | startSeedSelected =>
      simp only [update, startSeedSelected, startSeedPath] at sent
      split at sent
      · simp at sent
      · split at sent <;> simp at sent
  | startDownloadFromForm shareIdText peers output authPsk discoveryMulticast =>
      simp only [update, startDownloadFromForm] at sent
      split at sent
      · simp at sent
      next command downloaded built =>
          obtain ⟨request, rfl | rfl⟩ := request_of_buildDownloadCommandFrom built <;> simp at sent
  | browseSeedFiles paths => simp [update] at sent
  | ipcResponse | ipcEvent | ipcWatchStopped | selectShare | selectSeedFile =>
      simp only [update] at sent
      split at sent <;> simp at sent
  | _ => simp [update] at sent

/-- The panel names the share that waits while this share is selected. -/
theorem exists_pendingDeleteShareSummary {gui : EtleGui} {shareId : ShareId}
    (selected : gui.selectedShareSummary.map (·.shareId) = some shareId)
    (waits : gui.pendingDeleteShare = some shareId) :
    gui.pendingDeleteShareSummary.map (·.shareId) = some shareId := by
  obtain ⟨share, chosen, same⟩ := Option.map_eq_some_iff.mp selected
  obtain ⟨index, -, found⟩ := Option.bind_eq_some_iff.mp chosen
  rw [pendingDeleteShareSummary, waits, Option.bind_some]
  cases search : gui.shares.find? (·.shareId = shareId) with
  | none =>
      have absent := List.find?_eq_none.mp search share (List.mem_of_getElem? found)
      exact absurd same (by simpa using absent)
  | some named => simpa using List.find?_some search

end EtleGui

open EtleGui

/-- A command that deletes a share is sent while the share is selected, waits for its confirmation
and is named in the panel; since it was last asked for, no row was selected, and neither a
cancellation nor its deletion was handled. -/
theorem delete_sent_as_confirmed {init : GuiInit} {messages : List AppInput} {gui : EtleGui}
    (run : guiMachine.run (.new init) messages = some gui) {message : AppInput} {shareId : ShareId}
    (sends : gui.SendsDelete message shareId) :
    gui.selectedShareSummary.map (·.shareId) = some shareId ∧
      gui.pendingDeleteShare = some shareId ∧
      gui.pendingDeleteShareSummary.map (·.shareId) = some shareId ∧
      Machine.LastSet (·.pendingDeleteShare = some shareId) (·.AsksFor shareId)
        (·.Withdraws shareId) (guiMachine.trace (.new init) messages) := by
  obtain rfl := confirm_of_sendsDelete sends
  obtain ⟨selected, waits⟩ := sendsDelete_confirm_iff.mp sends
  refine ⟨selected, waits, exists_pendingDeleteShareSummary selected waits, ?_⟩
  apply Machine.lastSet_of_run _ _ run waits
  · intro before event next step asked
    obtain rfl : (before.update event).1 = next := Option.some.inj step
    exact asksFor_or_waits (before.libraryMove_of_update event) asked
  · simp [EtleGui.new]

/-- With one share listed and selected, its deletion is asked for and then confirmed. -/
theorem delete_sent_after_request :
    ∃ gui, guiMachine.run startedGui
        [listing [listedShare "notes" 7], .selectShare 0, .deleteSelectedShare] = some gui ∧
      gui.SendsDelete .confirmDeleteSelectedShare (listedShare "notes" 7).shareId ∧
      gui.pendingDeleteShareSummary.map (·.shareId) = some (listedShare "notes" 7).shareId ∧
      Machine.LastSet (·.pendingDeleteShare = some (listedShare "notes" 7).shareId)
        (·.AsksFor (listedShare "notes" 7).shareId) (·.Withdraws (listedShare "notes" 7).shareId)
        (guiMachine.trace startedGui
          [listing [listedShare "notes" 7], .selectShare 0, .deleteSelectedShare]) := by
  refine ⟨_, rfl, ?sends, ?panel⟩
  case sends => exact sendsDelete_confirm_iff.mpr ⟨rfl, rfl⟩
  case panel =>
      exact (delete_sent_as_confirmed rfl (sendsDelete_confirm_iff.mpr ⟨rfl, rfl⟩)).2.2

end Etle
