import Etle.Gui.LibraryPage

/-!
# The selected share

The client keeps the selected row, and the list of shares changes under it.  Removing and updating
shares keep the selection at its share; a listing keeps it at its row.
-/

namespace Etle

/-! ## Lists with keys -/

/-- Changing the first wanted element keeps the keys if the change does. -/
theorem map_modifyFirst {α κ : Type} {wanted : α → Bool} {change : α → α} {key : α → κ}
    (same : ∀ element, wanted element → key (change element) = key element) (list : List α) :
    (modifyFirst wanted change list).map key = list.map key := by
  induction list with
  | nil => rfl
  | cons first rest ih =>
      rw [modifyFirst]
      split
      next found => rw [List.map_cons, same first found, List.map_cons]
      next other => rw [List.map_cons, ih, List.map_cons]

/-- The position at which a key is found has this key. -/
theorem getElem?_findIdx?_map {α κ : Type} [DecidableEq κ] {key : α → κ} {list : List α}
    {wanted : κ} (there : wanted ∈ list.map key) :
    (list.findIdx? (key · = wanted)).bind ((list.map key)[·]?) = some wanted := by
  cases search : list.findIdx? (key · = wanted) with
  | none =>
      obtain ⟨element, member, same⟩ := List.mem_map.mp there
      have absent := List.findIdx?_eq_none_iff.mp search element member
      exact absurd same (by simpa using absent)
  | some index =>
      obtain ⟨inside, found, -⟩ := List.findIdx?_eq_some_iff_getElem.mp search
      simpa [inside] using found

namespace EtleGui

def shareIds (gui : EtleGui) : List ShareId := gui.shares.map (·.shareId)

def selectedShareId (gui : EtleGui) : Option ShareId := gui.selectedShareSummary.map (·.shareId)

/-- The selection stays at its share, or nothing is selected and the share is gone. -/
def FollowsShare (gui next : EtleGui) : Prop :=
  ∀ shareId, gui.selectedShareId = some shareId →
    next.selectedShareId = some shareId ∨ next.selectedShare = none ∧ shareId ∉ next.shareIds

/-- The message chooses a share, or another socket with shares of its own. -/
def ChoosesShare (gui : EtleGui) (message : AppInput) : Prop :=
  (∃ index, message = .selectShare index) ∨ gui.ChangesSocket message

/-- The message lists the shares of the daemon with another one in the selected row, or without this
row but with the selected share. -/
def ListsElsewhere (gui : EtleGui) : AppInput → Prop
  | .ipcResponse socketPath _ (.ok (.shares shares)) =>
      socketPath = gui.activeSocketPath ∧ ∃ index share,
        gui.selectedShare = some index ∧ gui.shares[index]? = some share ∧
          match shares[index]? with
          | some other => other.shareId ≠ share.shareId
          | none => share.shareId ∈ shares.map (·.shareId)
  | _ => False

/-! ## What the handlers select -/

theorem selectedShareId_eq (gui : EtleGui) :
    gui.selectedShareId = gui.selectedShare.bind (gui.shareIds[·]?) := by
  simp only [selectedShareId, selectedShareSummary, shareIds]
  cases gui.selectedShare with
  | none => rfl
  | some index => simp

theorem followsShare_of_prefix {gui next : EtleGui} (row : next.selectedShare = gui.selectedShare)
    (listed : gui.shareIds <+: next.shareIds) : FollowsShare gui next := by
  intro shareId selected
  left
  rw [selectedShareId_eq] at selected ⊢
  obtain ⟨index, chosen, found⟩ := Option.bind_eq_some_iff.mp selected
  obtain ⟨more, extended⟩ := listed
  obtain ⟨inside, -⟩ := List.getElem?_eq_some_iff.mp found
  rw [row, chosen, Option.bind_some, ← extended, List.getElem?_append_left inside]
  exact found

theorem shareIds_upsertShare (gui : EtleGui) (share : IpcShareSummary) :
    gui.shareIds <+: (gui.upsertShare share).shareIds := by
  simp only [upsertShare, shareIds]
  split
  next known =>
      rw [map_modifyFirst]
      intro element same
      simpa using Eq.symm (of_decide_eq_true same)
  next fresh => simp

theorem mem_shareIds_of_selectedShareId {gui : EtleGui} {shareId : ShareId}
    (selected : gui.selectedShareId = some shareId) : shareId ∈ gui.shareIds := by
  rw [selectedShareId_eq] at selected
  obtain ⟨index, -, found⟩ := Option.bind_eq_some_iff.mp selected
  exact List.mem_of_getElem? found

theorem shareIds_removeShare (gui : EtleGui) (deleted : ShareId) :
    (gui.removeShare deleted).shareIds = gui.shareIds.filter (· ≠ deleted) := by
  simp only [removeShare, shareIds, List.filter_map]
  rfl

theorem selectedShare_removeShare {gui : EtleGui} {shareId : ShareId}
    (selected : gui.selectedShareId = some shareId) (deleted : ShareId) :
    (gui.removeShare deleted).selectedShare =
      if shareId = deleted then none
      else (gui.removeShare deleted).shares.findIdx? (·.shareId = shareId) := by
  rw [selectedShareId] at selected
  simp only [removeShare, selected]
  split
  next same => simp [same, Option.filter]
  next other => simp [other, Option.filter]

theorem followsShare_removeShare (gui : EtleGui) (deleted : ShareId) :
    FollowsShare gui (gui.removeShare deleted) := by
  intro shareId selected
  have row := selectedShare_removeShare selected deleted
  split at row
  next same => exact .inr ⟨row, by simp [shareIds_removeShare, same]⟩
  next other =>
      left
      have there : shareId ∈ (gui.removeShare deleted).shareIds := by
        simp [shareIds_removeShare, mem_shareIds_of_selectedShareId selected, other]
      rw [selectedShareId_eq, row]
      exact getElem?_findIdx?_map there

/-- A listing keeps the row. -/
theorem followsShare_setShares_iff (gui : EtleGui) (kind : IpcRequestKind)
    (shares : List IpcShareSummary) :
    FollowsShare gui (gui.setShares shares) ↔
      ¬gui.ListsElsewhere (.ipcResponse gui.activeSocketPath kind (.ok (.shares shares))) := by
  simp only [FollowsShare, ListsElsewhere, selectedShareId_eq, setShares, shareIds, true_and]
  cases chosen : gui.selectedShare with
  | none => simp
  | some index =>
      cases old : gui.shares[index]? with
      | none => simp [old]
      | some share =>
          cases found : shares[index]? with
          | none =>
              have beyond := List.getElem?_eq_none_iff.mp found
              simp [old, Option.filter, beyond.not_gt]
          | some other =>
              obtain ⟨inside, -⟩ := List.getElem?_eq_some_iff.mp found
              simp [old, Option.filter, inside]

/-! ## Messages -/

theorem followsShare_congr {gui next other : EtleGui}
    (page : next.libraryPage = other.libraryPage) :
    FollowsShare gui next ↔ FollowsShare gui other := by
  have shares : next.shares = other.shares := congrArg (·.1) page
  have row : next.selectedShare = other.selectedShare := congrArg (·.2.1) page
  simp only [FollowsShare, selectedShareId_eq, shareIds, shares, row]

theorem followsShare_of_move {gui next : EtleGui} {message : AppInput}
    (move : LibraryMove gui message next) (unchosen : ¬gui.ChoosesShare message)
    (inPlace : ¬gui.ListsElsewhere message) : FollowsShare gui next := by
  have keeps {pending : Option ShareId}
      (page : next.libraryPage = (gui.shares, gui.selectedShare, pending)) :
      FollowsShare gui next := by
    have same : next.libraryPage = { gui with pendingDeleteShare := pending }.libraryPage := page
    rw [followsShare_congr same]
    exact followsShare_of_prefix rfl List.prefix_rfl
  cases move with
  | select inside page => exact absurd (.inl ⟨_, rfl⟩) unchosen
  | request selected page => exact keeps page
  | requestInstead selected other page => exact keeps page
  | confirm page => exact keeps page
  | cancel page => exact keeps page
  | keep still page => exact keeps page
  | remove applied page =>
      rw [followsShare_congr page]
      exact gui.followsShare_removeShare _
  | list page =>
      rw [followsShare_congr page]
      exact (gui.followsShare_setShares_iff _ _).mpr inPlace
  | add page =>
      rw [followsShare_congr page]
      exact followsShare_of_prefix rfl (gui.shareIds_upsertShare _)
  | updateShare page =>
      rw [followsShare_congr page]
      exact followsShare_of_prefix rfl (gui.shareIds_upsertShare _)
  | changeSocket changed page => exact absurd (.inr changed) unchosen

theorem libraryPage_update_listing (gui : EtleGui) (kind : IpcRequestKind)
    (shares : List IpcShareSummary) :
    (gui.update (.ipcResponse gui.activeSocketPath kind (.ok (.shares shares)))).1.libraryPage =
      (gui.setShares shares).libraryPage := by
  rw [update, if_pos rfl]
  simp only [applyIpcResponse, libraryPage_syncExistingTransfersFromShares]
  split <;> rfl

theorem not_followsShare_of_listsElsewhere {gui : EtleGui} {message : AppInput}
    (elsewhere : gui.ListsElsewhere message) :
    ¬gui.ChoosesShare message ∧ ¬FollowsShare gui (gui.update message).1 := by
  have listed := elsewhere
  unfold ListsElsewhere at elsewhere
  split at elsewhere
  next socketPath kind shares =>
      obtain ⟨rfl, -⟩ := elsewhere
      refine ⟨by simp [ChoosesShare, ChangesSocket], ?_⟩
      rw [followsShare_congr (gui.libraryPage_update_listing kind shares),
        gui.followsShare_setShares_iff kind shares]
      exact not_not.mpr listed
  next => exact elsewhere.elim

end EtleGui

open EtleGui

/-- In a run the selection follows its share at every message that neither chooses a share nor
another socket, exactly when no message lists the selected share elsewhere. -/
theorem selection_follows_share_iff (init : GuiInit) (messages : List AppInput) :
    (∀ taken ∈ guiMachine.trace (.new init) messages,
        ¬taken.1.ChoosesShare taken.2.1 → FollowsShare taken.1 taken.2.2) ↔
      ∀ taken ∈ guiMachine.trace (.new init) messages, ¬taken.1.ListsElsewhere taken.2.1 := by
  apply forall₂_congr
  rintro ⟨gui, message, next⟩ taken
  obtain ⟨-, step⟩ := Machine.reaches_of_mem_trace taken
  obtain rfl : (gui.update message).1 = next := Option.some.inj step
  constructor
  · intro follows elsewhere
    obtain ⟨unchosen, lost⟩ := not_followsShare_of_listsElsewhere elsewhere
    exact lost (follows unchosen)
  · intro inPlace unchosen
    exact followsShare_of_move (gui.libraryMove_of_update message) unchosen inPlace

/-- The only share is selected before the daemon lists another one above it; then this other one is
selected. -/
theorem selection_stays_in_row :
    ∃ taken ∈ guiMachine.trace startedGui
        [listing [listedShare "notes" 7], .selectShare 0,
          listing [listedShare "album" 3, listedShare "notes" 7]],
      ¬taken.1.ChoosesShare taken.2.1 ∧ ¬FollowsShare taken.1 taken.2.2 ∧
        taken.1.selectedShareId = some (listedShare "notes" 7).shareId ∧
        taken.2.2.selectedShareId = some (listedShare "album" 3).shareId := by
  refine ⟨_, List.mem_cons_of_mem _ (List.mem_cons_of_mem _ List.mem_cons_self), ?message, ?lost,
    rfl, rfl⟩
  case message => simp [ChoosesShare, ChangesSocket, listing]
  case lost =>
      have other : (listedShare "album" 3).shareId ≠ (listedShare "notes" 7).shareId := by decide
      intro follows
      rcases follows (listedShare "notes" 7).shareId rfl with same | ⟨dropped, -⟩
      · exact other (Option.some.inj same)
      · exact absurd dropped nofun

end Etle
