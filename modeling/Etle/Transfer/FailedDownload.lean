import Etle.State.OneByteShare
import Etle.Transfer.DownloadRecords
import Etle.Transfer.Negotiation
import Etle.Transfer.ServeSession

/-!
# What a failed download leaves of a share

A download that fails before the negotiation is complete has not touched the library.  One that
fails later has already replaced the records of the share its manifest describes: the mode is
downloading, the file key is the peer's, and nothing is rolled back.
-/

namespace Etle

open Std (TreeMap TreeSet)

/-- A share the library holds completely: it can be loaded for serving, every chunk is available
and recorded, and its mode is seeding or completed. -/
structure HoldsShare (prims : Primitives) (disk : Disk) (paths : LibraryPaths)
    (share : LoadedShare) : Prop where
  loaded : loadShare prims disk paths = .ok share
  complete : share.availableChunks = share.descriptor.chunks.map ChunkMeta.index
  progress : ∃ progress, readProgress disk paths = .ok progress ∧
    ∀ index, index ∈ progress.completedChunks ↔
      index ∈ share.descriptor.chunks.map ChunkMeta.index
  mode : ∃ state, readState disk paths = .ok state ∧
    (state.mode = .seeding ∨ state.mode = .completed)

/-- A share is what it was: its key, mode and progress are read as before, and a session that
serves it loads the same descriptor, file key and chunks. -/
structure KeepsShare (prims : Primitives) (paths : LibraryPaths) (before after : Disk) : Prop where
  secret : readSecret after paths = readSecret before paths
  mode : (readState after paths).map ShareState.mode = (readState before paths).map ShareState.mode
  progress : readProgress after paths = readProgress before paths
  served : loadShare prims after paths = loadShare prims before paths

/-- The peer's replies before the first chunk complete a negotiation for a share: they are accepted
one by one, the client's sends succeed, and the manifest has the identifier of the share. -/
def Attempt.NegotiatesShare (prims : Primitives) (options : DownloadFileOptions)
    (attempt : Attempt) (shareId : ShareId) : Prop :=
  ∃ connection after, attempt.link.connected = .ok connection ∧
    ∃ (replies : NegotiationReplies) (fileKey : SymmetricKey),
      replies.Accepted prims attempt.link.secret fileKey ∧
      connection.Passes (replies.frames prims options)
        (negotiationRequests prims options replies.keys) after ∧
      (descriptorFromManifest prims replies.manifest).shareId = shareId

section

variable {prims : Primitives} {outputPath : PathBuf} {options : DownloadFileOptions}
  {attempt : Attempt} {world after : DownloadWorld} {error : NetworkError}

/-- A negotiation for a share is one that gives the client a manifest of this share. -/
theorem negotiatesShare_iff {shareId : ShareId} :
    attempt.NegotiatesShare prims options shareId ↔
      ∃ connection peer rest, attempt.link.connected = .ok connection ∧
        (connectDownloadPeer prims attempt.link.secret options).run connection = .ok peer rest ∧
        (descriptorFromManifest prims peer.manifest).shareId = shareId := by
  constructor
  · rintro ⟨connection, rest, connected, replies, fileKey, accepted, passes, same⟩
    exact ⟨connection, replies.peer fileKey, rest, connected,
      run_connectDownloadPeer_eq_ok.mpr ⟨replies, accepted, rfl, passes⟩, same⟩
  · rintro ⟨connection, peer, rest, connected, negotiated, same⟩
    obtain ⟨replies, accepted, described, passes⟩ := run_connectDownloadPeer_eq_ok.mp negotiated
    refine ⟨connection, rest, connected, replies, peer.fileKey, accepted, passes, ?_⟩
    rw [described] at same
    exact same

/-- A negotiation that has succeeded is for the share of its manifest only. -/
theorem negotiatesShare_iff_of_negotiated {shareId : ShareId} {connection rest : Connection}
    {peer : ConnectedDownloadPeer} (connected : attempt.link.connected = .ok connection)
    (negotiated : (connectDownloadPeer prims attempt.link.secret options).run connection =
      .ok peer rest) :
    attempt.NegotiatesShare prims options shareId ↔
      (descriptorFromManifest prims peer.manifest).shareId = shareId := by
  rw [negotiatesShare_iff]
  constructor
  · rintro ⟨reached, answer, left, opened, answered, same⟩
    obtain rfl : connection = reached := by simpa [connected] using opened
    obtain ⟨rfl, -⟩ : peer = answer ∧ rest = left := by simpa [negotiated] using answered
    exact same
  · intro same
    exact ⟨connection, peer, rest, connected, negotiated, same⟩

/-- A directory that has not changed is read as before. -/
theorem keepsShare_of_eq {paths : LibraryPaths} {before after : Disk}
    (same : after paths = before paths) : KeepsShare prims paths before after := by
  have available (descriptor : EtleDescriptor) :
      availableChunkIndexes prims after paths descriptor =
        availableChunkIndexes prims before paths descriptor := by
    simp only [availableChunkIndexes, hasChunk, chunkVerifies, readChunk, same]
  refine ⟨?_, ?_, ?_, ?_⟩
  · simp only [readSecret, same]
  · simp only [readState, same]
  · simp only [readProgress, same]
  · simp only [loadShare, readDescriptor, readSecret, same, available]

/-- A share that has been left downloading is not what it was. -/
theorem LeftDownloading.not_keepsShare {paths : LibraryPaths} {before after : Disk}
    {share : LoadedShare} (left : LeftDownloading paths before after)
    (held : HoldsShare prims before paths share) : ¬KeepsShare prims paths before after := by
  intro kept
  obtain ⟨old, read, mode⟩ := held.mode
  obtain ⟨state, stored, downloading, owner⟩ := left.mode
  have now : readState after paths = .ok state := readState_of_value stored owner
  have same : state.mode = old.mode := by
    simpa [now, read, Except.map] using kept.mode
  rw [← same, downloading] at mode
  simp at mode

/-- A share that has just been initialised for serving is held if all its chunks verify. -/
theorem holdsShare_of_initialised {paths : LibraryPaths} {disk : Disk} {manifest : Manifest}
    {fileKey : SymmetricKey} {mode : ShareMode} {outputDir : Option PathBuf} {before : ShareDir}
    (dir : disk paths =
      initialisedDir (descriptorFromManifest prims manifest) fileKey mode outputDir before)
    (serving : mode = .seeding ∨ mode = .completed)
    (owned : (descriptorFromManifest prims manifest).shareId = paths.shareId)
    (verified : ∀ entry ∈ manifest.chunks, chunkVerifies prims disk paths entry) :
    HoldsShare prims disk paths {
      descriptor := descriptorFromManifest prims manifest
      fileKey, manifest
      availableChunks := manifest.indices } := by
  have available : availableChunkIndexes prims disk paths (descriptorFromManifest prims manifest) =
      manifest.indices := by
    rw [availableChunkIndexes_eq, descriptorFromManifest_chunks,
      List.filter_eq_self.mpr verified]
    rfl
  refine ⟨?_, rfl, ⟨_, readProgress_of_value (by rw [dir, initialisedDir]) ?_, fun index => ?_⟩,
    _, readState_of_value (by rw [dir, initialisedDir]) ?_, serving⟩
  · rw [← available]
    exact loadShare_of_values (by rw [dir, initialisedDir]) (by rw [dir, initialisedDir, owned])
      owned
  · rw [initialProgress_shareId, owned]
  · obtain rfl | rfl := serving <;> exact mem_normalizeChunkList
  · exact (initialProgress_shareId ..).trans owned

/-- The progress of a share that is held can be read. -/
theorem HoldsShare.storedProgress_ne_error {paths : LibraryPaths} {disk : Disk}
    {share : LoadedShare} (held : HoldsShare prims disk paths share) (resume : Bool)
    (failure : FileError) : storedProgress prims disk paths resume ≠ .error failure := by
  intro found
  have loaded := held.loaded
  cases described : readDescriptor prims disk paths with
  | error failure => simp [loadShare, described, Except.mapError, bind, Except.bind] at loaded
  | ok descriptor =>
      simp only [storedProgress, described, bind, Except.bind, pure, Except.pure] at found
      repeat' split at found
      all_goals simp_all

/-- Reconstructing the output does not touch the library unless it succeeds. -/
theorem finishFromLibrary_error {peer : Manifest × SymmetricKey} {schedule : DecryptSchedule}
    {outputs : PathBuf → Option Bytes} {session : LibrarySession}
    {library : ActiveDownloadLibraryState} (active : session.active = some library)
    (owned : library.Owned)
    (failed : finishFromLibrary prims outputPath peer schedule outputs session =
      some (.error error after)) : after.disk = session.disk := by
  unfold finishFromLibrary at failed
  simp only [activeDownloadState, active] at failed
  split at failed
  · cases failed
  · split at failed
    · obtain ⟨-, rfl⟩ : _ = error ∧ _ = after := by simpa using failed
      rfl
    · obtain ⟨marked, ran, -⟩ :=
        markDownloadLibraryComplete_spec active owned (outputParentDir outputPath)
      simp [ran] at failed

/-- A download that fails after the negotiation has not written, or has left its share
downloading. -/
theorem downloadFromPeer_error {root : PathBuf} {peer : ConnectedDownloadPeer}
    {connection : Connection} {paths : LibraryPaths}
    (withLibrary : options.libraryRoot = some root)
    (here : paths = { root, shareId := (descriptorFromManifest prims peer.manifest).shareId })
    (failed : downloadFromPeer prims outputPath options attempt peer connection world =
      some (.error error after)) :
    ((∃ failure, storedProgress prims world.disk paths options.resume = .error failure) ∧
      after.disk = world.disk) ∨
    LeftDownloading paths world.disk after.disk := by
  unfold downloadFromPeer at failed
  obtain ⟨failure, unread, stopped⟩ | ⟨failure, session, stopped, left⟩ |
      ⟨completed, session, library, prepared, records, -, marked, -⟩ :=
    run_prepareDownload withLibrary (outputParentDir outputPath) peer world.disk here
  · obtain ⟨-, rfl⟩ : _ = error ∧ _ = after := by simpa [stopped] using failed
    exact .inl ⟨⟨failure, unread⟩, rfl⟩
  · obtain ⟨-, rfl⟩ : _ = error ∧ _ = after := by simpa [stopped] using failed
    exact .inr left
  · right
    simp only [prepared] at failed
    split at failed
    · obtain ⟨-, rfl⟩ : _ = error ∧ _ = after := by simpa using failed
      exact records.downloading
    · split at failed
      · rename_i loop final ended
        obtain ⟨handle, kept, -⟩ := windowRecords_of_run records marked ended
        unfold finishDownload at failed
        split at failed
        · obtain ⟨-, rfl⟩ : _ = error ∧ _ = after := by simpa using failed
          exact kept.downloading
        · have active : final.active = some handle := kept.active
          rw [if_pos (by simp [active])] at failed
          rw [finishFromLibrary_error active kept.owned failed]
          exact kept.downloading
      · rename_i loop final cause ended
        obtain ⟨handle, kept, -⟩ := windowRecords_of_run records marked ended
        obtain ⟨-, rfl⟩ : _ = error ∧ _ = after := by simpa using failed
        exact kept.downloading
      · cases failed

/-- A failed download keeps a share that the library holds exactly when the peer did not complete
a negotiation for this share. -/
theorem failedDownload_keeps_share_iff {root : PathBuf} {paths : LibraryPaths}
    {share : LoadedShare} (withLibrary : options.libraryRoot = some root)
    (located : paths.root = root) (held : HoldsShare prims world.disk paths share)
    (failed : fromPeerWith prims outputPath options attempt world = some (.error error after)) :
    KeepsShare prims paths world.disk after.disk ↔
      ¬attempt.NegotiatesShare prims options paths.shareId := by
  unfold fromPeerWith at failed
  split at failed
  · rename_i kind refused
    obtain ⟨-, rfl⟩ : _ = error ∧ world = after := by simpa using failed
    exact iff_of_true (keepsShare_of_eq rfl) (by simp [negotiatesShare_iff, refused])
  · rename_i connection connected
    split at failed
    · rename_i cause rest rejected
      obtain ⟨-, rfl⟩ : _ = error ∧ world = after := by simpa using failed
      exact iff_of_true (keepsShare_of_eq rfl) (by simp [negotiatesShare_iff, connected, rejected])
    · rename_i peer rest negotiated
      rw [negotiatesShare_iff_of_negotiated connected negotiated]
      obtain ⟨⟨failure, unread⟩, same⟩ | left := downloadFromPeer_error withLibrary rfl failed
      · refine iff_of_true (keepsShare_of_eq (by rw [same])) fun here => ?_
        rw [here, ← located] at unread
        exact held.storedProgress_ne_error options.resume failure unread
      · by_cases here : (descriptorFromManifest prims peer.manifest).shareId = paths.shareId
        · rw [here, ← located] at left
          exact iff_of_false (left.not_keepsShare held) (not_not_intro here)
        · refine iff_of_true (keepsShare_of_eq (left.others paths ?_)) here
          rintro rfl
          exact here rfl

end

/-! ## A held share that a peer overwrites -/

/-- The directory of a one-byte share. -/
def heldPaths : LibraryPaths where
  root := ["library"]
  shareId := (descriptorFromManifest transparentPrimitives (oneByteManifest [0])).shareId

/-- A library that holds a one-byte share completely. -/
def heldDisk : Disk :=
  Function.update (fun _ => .absent) heldPaths
    (initialisedDir (descriptorFromManifest transparentPrimitives (oneByteManifest [0])) sampleKey
      .completed none (oneByteDisk heldPaths))

/-- A download into this library that does not resume. -/
def heldOptions : DownloadFileOptions where
  peerId := "downloader"
  libraryRoot := some heldPaths.root
  resume := false
  requestedShareId := none
  requestWindow := 1
  authPsk := none

/-- A peer that offers the held share under a key of its own and has none of its chunks. -/
def overwritingAttempt : Attempt where
  link := offeringLink transparentPrimitives heldOptions (Vector.replicate 32 1)
    ⟨Vector.replicate 32 1⟩ (oneByteManifest [0])
    { nonce := ⟨Vector.replicate 24 0⟩, data := List.replicate 48 0 } []
  windowEvents := [.request none, .finish]
  decryption := { availableParallelism := none, events := fun _ => [] }

/-- The same download from a peer that cannot be reached. -/
def refusedAttempt : Attempt :=
  { overwritingAttempt with
    link := { connected := .error .connectionReset, secret := Vector.replicate 32 1 } }

/-- The library holds the share. -/
theorem holdsShare_heldDisk : HoldsShare transparentPrimitives heldDisk heldPaths {
    descriptor := descriptorFromManifest transparentPrimitives (oneByteManifest [0])
    fileKey := sampleKey
    manifest := oneByteManifest [0]
    availableChunks := (oneByteManifest [0]).indices } :=
  holdsShare_of_initialised (Function.update_self ..) (.inr rfl) rfl
    (by decide +kernel)

/-- A peer that offers a held share and then has no chunk takes away its key, its mode and its
progress. -/
theorem failedDownload_overwrites_held_share :
    (∃ share, HoldsShare transparentPrimitives heldDisk heldPaths share) ∧
    ∃ after, fromPeerWith transparentPrimitives ["sample.bin"] heldOptions overwritingAttempt
        { disk := heldDisk, outputs := fun _ => none } =
      some (.error (.missingEncryptedChunk 0) after) ∧
      ¬KeepsShare transparentPrimitives heldPaths heldDisk after.disk := by
  have outcome : (fromPeerWith transparentPrimitives ["sample.bin"] heldOptions overwritingAttempt
      { disk := heldDisk, outputs := fun _ => none }).bind (fun
        | .error (.missingEncryptedChunk index) after =>
            some (index, (readSecret after.disk heldPaths).toOption)
        | _ => none) =
      some (0, some { shareId := heldPaths.shareId, fileKey := ⟨Vector.replicate 32 0⟩ }) := by
    decide +kernel
  have before : (readSecret heldDisk heldPaths).toOption =
      some { shareId := heldPaths.shareId, fileKey := sampleKey } := by decide +kernel
  refine ⟨⟨_, holdsShare_heldDisk⟩, ?_⟩
  obtain ⟨result, ran, found⟩ := Option.bind_eq_some_iff.mp outcome
  split at found
  · rename_i index after
    obtain ⟨rfl, overwritten⟩ : index = 0 ∧ (readSecret after.disk heldPaths).toOption = _ := by
      simpa using found
    refine ⟨after, ran, fun kept => ?_⟩
    rw [kept.secret, before] at overwritten
    exact absurd overwritten (by decide +kernel)
  · cases found

/-- A peer that cannot be reached leaves the held share alone. -/
theorem failedDownload_keeps_held_share_when_refused :
    fromPeerWith transparentPrimitives ["sample.bin"] heldOptions refusedAttempt
        { disk := heldDisk, outputs := fun _ => none } =
      some (.error (.io .connectionReset) { disk := heldDisk, outputs := fun _ => none }) ∧
    KeepsShare transparentPrimitives heldPaths heldDisk heldDisk := by
  refine ⟨rfl, (@failedDownload_keeps_share_iff transparentPrimitives ["sample.bin"] heldOptions
    refusedAttempt ⟨heldDisk, fun _ => none⟩ ⟨heldDisk, fun _ => none⟩ _ _ _ _ rfl rfl
    holdsShare_heldDisk rfl).mpr ?_⟩
  rintro ⟨connection, after, connected, -⟩
  cases connected

end Etle
