import Etle.Ipc.Commands
import Etle.State.OneByteShare

/-!
# Shares beside damaged ones

Listing the library, answering a discovery probe and deleting a share all go through one listing,
which ends at the first record that cannot be read.  A valid share is listed, found and deleted
exactly when every other share of the library can be read.
-/

namespace Etle

/-! ## What rests on the listing -/

namespace LocalShareSummary

/-- How many chunks are recorded as completed. -/
def completedChunks (share : LocalShareSummary) : Nat :=
  (share.progress.map fun progress => progress.completedChunks.length).getD 0

/-- How many chunks the share has. -/
def totalChunks (share : LocalShareSummary) : Nat := share.descriptor.chunks.length

/-- What the daemon does with the share. -/
def mode (share : LocalShareSummary) : Option ShareMode := share.state.map ShareState.mode

end LocalShareSummary

/-- The share can be offered to peers that look for it. -/
def isDiscoverableShare (disk : Disk) (share : LocalShareSummary) : Bool :=
  share.hasSecret &&
    (share.mode == some .seeding || share.mode == some .completed ||
      share.mode == some .downloading) &&
    share.totalChunks != 0 &&
    (0 < share.completedChunks ||
      share.descriptor.chunks.any fun entry => hasChunk disk share.paths entry.index)

/-- The name of a share that peers may find here. -/
def localShareName (prims : Primitives) (disk : Disk) (root : PathBuf)
    (directory : Option (List DirEntry)) (shareId : ShareId) : Option String :=
  match libraryList prims disk root directory with
  | .error _ => none
  | .ok shares =>
      (shares.find? fun share =>
        share.descriptor.shareId = shareId && isDiscoverableShare disk share).map
          fun share => share.descriptor.name

/-- What the daemon finds on disk when it is asked to delete a share. -/
def deleteView (prims : Primitives) (disk : Disk) (root : PathBuf)
    (directory : Option (List DirEntry)) (shareId : ShareId) (describe : FileError → String)
    (millis processId : Nat) : DaemonView where
  listed := libraryList prims disk root directory
  deleted :=
    match (libraryDelete root shareId).run disk with
    | .ok found _ => .ok found
    | .error error _ => .error error
  describe := describe
  millis := millis
  processId := processId

/-- The disk after a request to delete a share, which only touches a share that is listed. -/
def diskAfterDelete (view : DaemonView) (disk : Disk) (root : PathBuf) (shareId : ShareId) :
    Disk :=
  match shareSummaryById view shareId with
  | .ok (some _) => ((libraryDelete root shareId).run disk).final
  | _ => disk

/-! ## When the listing succeeds -/

/-- Either the share has no descriptor file, or all that the listing reads of it is valid. -/
def ReadableShare (prims : Primitives) (disk : Disk) (paths : LibraryPaths) : Prop :=
  (disk paths).descriptor.isFile = true →
    (∃ descriptor, readDescriptor prims disk paths = .ok descriptor) ∧
    ((disk paths).progress.isFile = true → ∃ progress, readProgress disk paths = .ok progress) ∧
    ((disk paths).state.isFile = true → ∃ state, readState disk paths = .ok state)

section

variable {prims : Primitives} {disk : Disk} {root : PathBuf} {paths : LibraryPaths}
  {entries : List DirEntry}

theorem readIfFile_eq_ok_iff {α : Type} {stored : Stored α} {read : Except FileError α} :
    (∃ value, readIfFile stored read = .ok value) ↔
      (stored.isFile = true → ∃ value, read = .ok value) := by
  cases file : stored.isFile <;> cases read <;> simp [readIfFile, file, Except.map]

theorem summarizeShare_eq_ok_iff :
    (∃ share, summarizeShare prims disk paths = .ok share) ↔
      (∃ descriptor, readDescriptor prims disk paths = .ok descriptor) ∧
      ((disk paths).progress.isFile = true → ∃ progress, readProgress disk paths = .ok progress) ∧
      ((disk paths).state.isFile = true → ∃ state, readState disk paths = .ok state) := by
  rw [← readIfFile_eq_ok_iff, ← readIfFile_eq_ok_iff]
  cases descriptor : readDescriptor prims disk paths <;>
    cases progress : readIfFile (disk paths).progress (readProgress disk paths) <;>
    cases state : readIfFile (disk paths).state (readState disk paths) <;>
    simp [summarizeShare, descriptor, progress, state, bind, Except.bind, pure, Except.pure]

/-- The listing succeeds exactly when every share among the entries can be read. -/
theorem listEntries_eq_ok_iff :
    (∃ shares, listEntries prims disk root entries = .ok shares) ↔
      ∀ entry ∈ entries, ∀ shareId, entry.shareId = some shareId →
        ReadableShare prims disk { root, shareId } := by
  induction entries with
  | nil => simp [listEntries]
  | cons entry rest ih =>
      rw [List.forall_mem_cons, ← ih]
      cases named : entry.shareId with
      | none => simp [listEntries, named]
      | some shareId =>
          cases file : (disk { root, shareId }).descriptor.isFile with
          | false => simp [listEntries, named, file, ReadableShare]
          | true =>
              simp only [listEntries, named, file, if_true, Option.some.injEq, forall_eq',
                ReadableShare, forall_true_left, ← summarizeShare_eq_ok_iff]
              cases summary : summarizeShare prims disk { root, shareId } <;>
                cases later : listEntries prims disk root rest <;>
                simp [bind, Except.bind, pure, Except.pure]

/-- The listing shows exactly the shares among the entries. -/
theorem mem_listEntries {shares : List LocalShareSummary}
    (listed : listEntries prims disk root entries = .ok shares) {share : LocalShareSummary} :
    share ∈ shares ↔ ∃ entry ∈ entries, ∃ shareId, entry.shareId = some shareId ∧
      (disk { root, shareId }).descriptor.isFile = true ∧
      summarizeShare prims disk { root, shareId } = .ok share := by
  induction entries generalizing shares with
  | nil =>
      obtain rfl : [] = shares := by simpa [listEntries] using listed
      simp
  | cons entry rest ih =>
      rw [List.exists_mem_cons_iff]
      cases named : entry.shareId with
      | none => simpa using ih (by simpa [listEntries, named] using listed)
      | some shareId =>
          cases file : (disk { root, shareId }).descriptor.isFile with
          | false =>
              simpa [file] using ih (by simpa [listEntries, named, file] using listed)
          | true =>
              simp only [listEntries, named, file, if_true] at listed
              cases summary : summarizeShare prims disk { root, shareId } with
              | error error => simp [summary, bind, Except.bind] at listed
              | ok first =>
                  cases later : listEntries prims disk root rest with
                  | error error => simp [summary, later, bind, Except.bind] at listed
                  | ok others =>
                      obtain rfl : first :: others = shares := by
                        simpa [summary, later, bind, Except.bind, pure, Except.pure] using listed
                      rw [List.mem_cons, ih later]
                      refine or_congr ?_ Iff.rfl
                      constructor
                      · rintro rfl
                        exact ⟨shareId, rfl, file, summary⟩
                      · rintro ⟨_, ⟨rfl⟩, -, same⟩
                        exact (Except.ok.inj (summary.symm.trans same)).symm

/-- Sorting neither adds nor drops a share. -/
theorem mem_libraryList {shares : List LocalShareSummary}
    (listed : libraryList prims disk root (some entries) = .ok shares)
    {share : LocalShareSummary} :
    share ∈ shares ↔ ∃ entry ∈ entries, ∃ shareId, entry.shareId = some shareId ∧
      (disk { root, shareId }).descriptor.isFile = true ∧
      summarizeShare prims disk { root, shareId } = .ok share := by
  cases found : listEntries prims disk root entries with
  | error error => simp [libraryList, found, Except.map] at listed
  | ok others =>
      obtain rfl : others.mergeSort LocalShareSummary.before = shares := by
        simpa [libraryList, found, Except.map] using listed
      rw [List.mem_mergeSort, mem_listEntries found]

theorem libraryList_eq_ok_iff :
    (∃ shares, libraryList prims disk root (some entries) = .ok shares) ↔
      ∀ entry ∈ entries, ∀ shareId, entry.shareId = some shareId →
        ReadableShare prims disk { root, shareId } := by
  rw [← listEntries_eq_ok_iff]
  cases found : listEntries prims disk root entries <;> simp [libraryList, found, Except.map]

/-- A summary belongs to the share it was read from. -/
theorem shareId_of_summarizeShare {share : LocalShareSummary}
    (read : summarizeShare prims disk paths = .ok share) :
    share.descriptor.shareId = paths.shareId := by
  simp only [summarizeShare, bind, Except.bind, pure, Except.pure] at read
  split at read
  · cases read
  · rename_i descriptor described
    split at read
    · cases read
    · split at read
      · cases read
      · obtain rfl := Except.ok.inj read
        exact (readDescriptor_eq_ok described).2.1

end

/-! ## A valid share -/

/-- A share whose directory is there and listed, and whose four records are valid. -/
structure ValidShare (prims : Primitives) (disk : Disk) (root : PathBuf)
    (entries : List DirEntry) where
  shareId : ShareId
  descriptor : EtleDescriptor
  secret : EtleSecret
  progress : DownloadProgress
  state : ShareState
  present : (disk { root, shareId }).present = true
  listed : { name := some shareId.display, isDir := true } ∈ entries
  described : readDescriptor prims disk { root, shareId } = .ok descriptor
  keyed : readSecret disk { root, shareId } = .ok secret
  progressed : readProgress disk { root, shareId } = .ok progress
  stated : readState disk { root, shareId } = .ok state

namespace ValidShare

variable {prims : Primitives} {disk : Disk} {root : PathBuf} {entries : List DirEntry}
  (share : ValidShare prims disk root entries)

/-- What the listing shows of the share. -/
def summary : LocalShareSummary where
  paths := { root, shareId := share.shareId }
  descriptor := share.descriptor
  progress := some share.progress
  state := some share.state
  hasSecret := true

theorem shareId_entry :
    DirEntry.shareId { name := some share.shareId.display, isDir := true } =
      some share.shareId := by
  simp [DirEntry.shareId, fromStr_display]

theorem isFile_of_readStored {α : Type} {stored : Stored α} {content : α}
    (read : readStored stored = .ok content) : stored.isFile = true := by
  cases stored with
  | missing => simp [readStored] at read
  | undecodable | value => rfl

/-- A record that is read is there. -/
theorem isFile_of_read {α : Type} {stored : Stored α} {check : α → Except FileError α}
    {content : α} (read : readStored stored >>= check = .ok content) : stored.isFile = true := by
  cases found : readStored stored with
  | error error => simp [found, bind, Except.bind] at read
  | ok other => exact isFile_of_readStored found

theorem summarized :
    summarizeShare prims disk { root, shareId := share.shareId } = .ok share.summary := by
  have progress_file : (disk { root, shareId := share.shareId }).progress.isFile = true :=
    isFile_of_read share.progressed
  have state_file : (disk { root, shareId := share.shareId }).state.isFile = true :=
    isFile_of_read share.stated
  have secret_file : (disk { root, shareId := share.shareId }).secret.isFile = true :=
    isFile_of_read share.keyed
  simp [summarizeShare, share.described, readIfFile, progress_file, state_file, secret_file,
    share.progressed, share.stated, bind, Except.bind, pure, Except.pure, Except.map, summary]

theorem descriptor_isFile : (disk { root, shareId := share.shareId }).descriptor.isFile = true := by
  rw [(readDescriptor_eq_ok share.described).1]
  rfl

theorem readable : ReadableShare prims disk { root, shareId := share.shareId } := fun _ =>
  ⟨⟨_, share.described⟩, fun _ => ⟨_, share.progressed⟩, fun _ => ⟨_, share.stated⟩⟩

/-- A listing that succeeds shows the share. -/
theorem summary_mem {shares : List LocalShareSummary}
    (listed : libraryList prims disk root (some entries) = .ok shares) :
    share.summary ∈ shares :=
  (mem_libraryList listed).mpr ⟨_, share.listed, share.shareId, share.shareId_entry,
    share.descriptor_isFile, share.summarized⟩

/-- A listing shows nothing else under this identifier. -/
theorem eq_summary {shares : List LocalShareSummary}
    (listed : libraryList prims disk root (some entries) = .ok shares) {other : LocalShareSummary}
    (member : other ∈ shares) (same : other.descriptor.shareId = share.shareId) :
    other = share.summary := by
  obtain ⟨_, _, shareId, _, _, summarized⟩ := (mem_libraryList listed).mp member
  obtain rfl : shareId = share.shareId := (shareId_of_summarizeShare summarized).symm.trans same
  exact Except.ok.inj (summarized.symm.trans share.summarized)

theorem shareId_descriptor : share.descriptor.shareId = share.shareId :=
  (readDescriptor_eq_ok share.described).2.1

/-- Looking for the share in a listing finds its summary if that has the wanted property. -/
theorem find_summary {shares : List LocalShareSummary}
    (listed : libraryList prims disk root (some entries) = .ok shares)
    {wanted : LocalShareSummary → Bool} (fits : wanted share.summary = true) :
    shares.find? (fun other => other.descriptor.shareId = share.shareId && wanted other) =
      some share.summary := by
  cases found : shares.find? fun other =>
      other.descriptor.shareId = share.shareId && wanted other with
  | none =>
      have refused := List.find?_eq_none.mp found share.summary (share.summary_mem listed)
      have named : share.summary.descriptor.shareId = share.shareId := share.shareId_descriptor
      exact absurd (by simp [named, fits]) refused
  | some other =>
      have same := List.find?_some found
      simp only [Bool.and_eq_true, decide_eq_true_eq] at same
      rw [share.eq_summary listed (List.mem_of_find?_eq_some found) same.1]

/-- The share is listed, found by peers when it is discoverable, and deleted on request. -/
structure Isolated (describe : FileError → String) (millis processId : Nat) : Prop where
  listed : ∃ shares, libraryList prims disk root (some entries) = .ok shares ∧
    share.summary ∈ shares
  found : isDiscoverableShare disk share.summary = true →
    localShareName prims disk root (some entries) share.shareId = some share.descriptor.name
  deleted :
    let view := deleteView prims disk root (some entries) share.shareId describe millis processId
    deleteShareResponse view share.shareId =
        .shareDeleted share.shareId share.descriptor.name ∧
      (diskAfterDelete view disk root share.shareId { root, shareId := share.shareId }).present =
        false

/-- Deleting a directory that is there removes it. -/
theorem run_libraryDelete :
    (libraryDelete root share.shareId).run disk =
      .ok true (Function.update disk { root, shareId := share.shareId } .absent) := by
  simp [libraryDelete, share.present, changeShare, -bind_pure_comp]

/-- A listing that succeeds lets the share be found and deleted. -/
theorem isolated_of_listed {shares : List LocalShareSummary}
    (listed : libraryList prims disk root (some entries) = .ok shares)
    (describe : FileError → String) (millis processId : Nat) :
    share.Isolated describe millis processId where
  listed := ⟨shares, listed, share.summary_mem listed⟩
  found := by
    intro discoverable
    simp [localShareName, listed, share.find_summary listed discoverable, summary]
  deleted := by
    have summarized : shareSummaryById
        (deleteView prims disk root (some entries) share.shareId describe millis processId)
        share.shareId = .ok (some (ipcShareSummaryFromLocal share.summary)) := by
      have every := @find_summary _ _ _ _ share shares listed (fun _ => true) rfl
      simp only [Bool.and_true] at every
      simp [shareSummaryById, deleteView, listed, every]
    refine ⟨?_, ?_⟩
    · simp only [deleteShareResponse, summarized]
      simp [deleteView, share.run_libraryDelete, ipcShareSummaryFromLocal, summary]
    · simp [diskAfterDelete, summarized, share.run_libraryDelete, ShareDir.absent]

end ValidShare

/-- A valid share is listed, found and deleted exactly when every other share of the library
directory that has a descriptor file can be read. -/
theorem validShare_isolated_iff (prims : Primitives) (disk : Disk) (root : PathBuf)
    (entries : List DirEntry) (share : ValidShare prims disk root entries)
    (describe : FileError → String) (millis processId : Nat) :
    share.Isolated describe millis processId ↔
      ∀ entry ∈ entries, ∀ other, entry.shareId = some other → other ≠ share.shareId →
        ReadableShare prims disk { root, shareId := other } := by
  constructor
  · rintro ⟨⟨shares, listed, -⟩, -, -⟩ entry member other named -
    exact libraryList_eq_ok_iff.mp ⟨shares, listed⟩ entry member other named
  · intro others
    obtain ⟨shares, listed⟩ := (@libraryList_eq_ok_iff prims disk root entries).mpr (by
      intro entry member other named
      by_cases same : other = share.shareId
      · rw [same]
        exact share.readable
      · exact others entry member other named same)
    exact share.isolated_of_listed listed describe millis processId

/-! ## A damaged share beside a valid one -/

/-- The descriptor of a share of one chunk. -/
def soundDescriptor : EtleDescriptor :=
  descriptorFromManifest transparentPrimitives (oneByteManifest [0])

/-- A library with one complete share, in which every other directory has a damaged descriptor. -/
def damagedDisk : Disk := fun paths =>
  if paths.shareId = soundDescriptor.shareId then
    initialisedDir soundDescriptor sampleKey .seeding none (oneByteDisk paths)
  else
    { ShareDir.absent with present := true, descriptor := .undecodable }

/-- The directory of a share. -/
def shareEntry (shareId : ShareId) : DirEntry where
  name := some shareId.display
  isDir := true

/-- The complete share of that library, with any other entries beside it. -/
def soundShare (others : List DirEntry) :
    ValidShare transparentPrimitives damagedDisk ["library"]
      (shareEntry soundDescriptor.shareId :: others) where
  shareId := soundDescriptor.shareId
  descriptor := soundDescriptor
  secret := { shareId := soundDescriptor.shareId, fileKey := sampleKey }
  progress := initialProgress soundDescriptor .seeding
  state := .fromProgress .seeding none (initialProgress soundDescriptor .seeding)
  present := by simp [damagedDisk, initialisedDir]
  listed := List.mem_cons_self
  described := readDescriptor_of_value (by simp [damagedDisk, initialisedDir]) rfl
    (verifyShareId_descriptorFromManifest _ _)
  keyed := readSecret_of_value (by simp [damagedDisk, initialisedDir]) rfl
  progressed := readProgress_of_value (by simp [damagedDisk, initialisedDir]) rfl
  stated := readState_of_value (by simp [damagedDisk, initialisedDir]) rfl

/-- Alone in its library the share is listed, found and deleted. -/
theorem validShare_isolated_alone :
    (soundShare []).Isolated (fun _ => "error") 0 0 := by
  refine (validShare_isolated_iff _ _ _ _ (soundShare []) _ _ _).mpr ?_
  intro entry member other named different
  obtain rfl := List.mem_singleton.mp member
  exact absurd (Option.some.inj (named.symm.trans (soundShare []).shareId_entry)) different

/-- A damaged descriptor of another share hides the share, from the listing and from peers, and
keeps it from being deleted. -/
theorem validShare_hidden_by_damage :
    let entries := [shareEntry soundDescriptor.shareId, shareEntry samplePaths.shareId]
    let view := deleteView transparentPrimitives damagedDisk ["library"] (some entries)
      soundDescriptor.shareId (fun _ => "error") 0 0
    isDiscoverableShare damagedDisk (soundShare [shareEntry samplePaths.shareId]).summary = true ∧
      libraryList transparentPrimitives damagedDisk ["library"] (some entries) =
        .error .decode ∧
      localShareName transparentPrimitives damagedDisk ["library"] (some entries)
        soundDescriptor.shareId = none ∧
      deleteShareResponse view soundDescriptor.shareId = .error "error" ∧
      (diskAfterDelete view damagedDisk ["library"] soundDescriptor.shareId
        { root := ["library"], shareId := soundDescriptor.shareId }).present = true := by
  intro entries view
  have damaged : damagedDisk { root := ["library"], shareId := samplePaths.shareId } =
      { ShareDir.absent with present := true, descriptor := .undecodable } :=
    if_neg (by decide +kernel)
  have unread : summarizeShare transparentPrimitives damagedDisk
      { root := ["library"], shareId := samplePaths.shareId } = .error .decode := by
    simp [summarizeShare, readDescriptor, damaged, readStored, bind, Except.bind]
  have aborted : libraryList transparentPrimitives damagedDisk ["library"] (some entries) =
      .error .decode := by
    have sound := (soundShare [shareEntry samplePaths.shareId]).summarized
    have file := (soundShare [shareEntry samplePaths.shareId]).descriptor_isFile
    have present :
        (damagedDisk { root := ["library"], shareId := samplePaths.shareId }).descriptor.isFile =
          true := by
      rw [damaged]
      rfl
    simp only [soundShare] at sound file
    simp [libraryList, entries, listEntries, shareEntry, DirEntry.shareId, fromStr_display, sound,
      file, present, unread, bind, Except.bind, Except.map]
  refine ⟨by decide +kernel, aborted, ?_, ?_, ?_⟩
  · simp [localShareName, aborted]
  · simp [deleteShareResponse, shareSummaryById, view, deleteView, aborted]
  · have kept : diskAfterDelete view damagedDisk ["library"] soundDescriptor.shareId =
        damagedDisk := by
      simp [diskAfterDelete, shareSummaryById, view, deleteView, aborted]
    rw [kept]
    exact (soundShare []).present

end Etle
