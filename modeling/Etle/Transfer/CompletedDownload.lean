import Etle.Transfer.DownloadRecords
import Etle.Transfer.ReconstructOutcome
import Etle.Transfer.VerifiedRuns

/-!
# What a completed download leaves behind

Whatever the library contained before, a download that succeeds leaves a share that can be served:
its descriptor is that of the manifest, its key the one the peer has sent, every chunk of the
manifest verifies, and the progress on disk lists exactly the chunks of the manifest.
-/

namespace Etle

open Std (TreeMap TreeSet)

/-- A share that has been downloaded completely. -/
structure CompletedShare (prims : Primitives) (manifest : Manifest) (fileKey : SymmetricKey)
    (disk : Disk) (paths : LibraryPaths) : Prop where
  descriptor : readDescriptor prims disk paths = .ok (descriptorFromManifest prims manifest)
  secret : readSecret disk paths = .ok { shareId := paths.shareId, fileKey }
  mode : ∃ state, readState disk paths = .ok state ∧ state.mode = .completed
  progress : ∃ progress, readProgress disk paths = .ok progress ∧ progress.Ordered ∧
    ∀ index, index ∈ progress.completedChunks ↔ index ∈ manifest.indices
  available : availableChunkIndexes prims disk paths (descriptorFromManifest prims manifest) =
    manifest.indices

section

variable {prims : Primitives} {outputPath : PathBuf} {options : DownloadFileOptions}

/-- When nothing is missing and only chunks of the manifest are completed, these are all its
chunks. -/
theorem mem_completed_of_firstMissing {manifest : Manifest} {completed : TreeSet UInt32}
    (inside : ∀ index ∈ completed, index ∈ manifest.indices)
    (nothing : firstMissing manifest completed = none) (index : UInt32) :
    index ∈ completed ↔ index ∈ manifest.indices := by
  refine ⟨inside index, fun member => ?_⟩
  unfold firstMissing at nothing
  split at nothing
  · obtain ⟨entry, entry_mem, rfl⟩ := List.mem_map.mp member
    have found := List.find?_eq_none.mp (Option.map_eq_none_iff.mp nothing) entry entry_mem
    simpa using found
  · rename_i full
    have length : manifest.indices.length = manifest.chunks.length := List.length_map ..
    exact TreeSet.mem_of_size_eq_length inside (by omega) member

/-- A reconstruction that succeeds turns the records of the download into those of a completed
share. -/
theorem completedShare_of_finishFromLibrary {root : PathBuf} {manifest result : Manifest}
    {fileKey : SymmetricKey} {before : Disk} {session : LibrarySession}
    {library : ActiveDownloadLibraryState} {schedule : DecryptSchedule}
    {outputs : PathBuf → Option Bytes} {after : DownloadWorld} {paths : LibraryPaths}
    (here : paths = { root, shareId := (descriptorFromManifest prims manifest).shareId })
    (records : DownloadRecords paths (descriptorFromManifest prims manifest) fileKey before session
      library)
    (marked : ∀ index, index ∈ library.progress.completedChunks ↔ index ∈ manifest.indices)
    (finished : finishFromLibrary prims outputPath (manifest, fileKey) schedule outputs session =
      some (.ok result after)) :
    CompletedShare prims manifest fileKey after.disk paths ∧
    ∃ written, after.outputs outputPath = some written ∧
      hashFileId prims written = manifest.fileId := by
  obtain rfl := records.located
  have owner : (descriptorFromManifest prims manifest).shareId = library.paths.shareId := by
    rw [here]
  obtain ⟨completed, ran, complete⟩ :=
    markDownloadLibraryComplete_spec records.active records.owned (outputParentDir outputPath)
  unfold finishFromLibrary at finished
  simp only [activeDownloadState, records.active] at finished
  split at finished
  · cases finished
  · rename_i written outcome decrypted
    split at finished
    · simp at finished
    · obtain ⟨hash, decrypts⟩ := decryptLibraryChunksToFile_ok decrypted
      obtain ⟨-, rfl⟩ : manifest = result ∧ _ = after := by simpa [ran] using finished
      refine ⟨⟨?_, ?_, ⟨_, readState_of_value complete.mode records.owned, rfl⟩,
        ⟨library.progress, readProgress_of_value ?_ records.owned, records.ordered, marked⟩, ?_⟩,
        written, by simp, hash⟩
      · exact readDescriptor_of_value (complete.descriptor.trans records.described) owner
          (verifyShareId_descriptorFromManifest prims manifest)
      · refine readSecret_of_value (complete.secret.trans ?_) rfl
        rw [records.keyed, owner]
      · rw [complete.progress]
        split
        · rfl
        · exact records.flushed (by omega)
      · rw [availableChunkIndexes_eq, descriptorFromManifest_chunks, List.filter_eq_self.mpr,
          Manifest.indices]
        intro entry member
        obtain ⟨chunk, opened⟩ := decrypts entry member
        obtain ⟨cipher, stored, size, same, -⟩ := decryptLibraryChunk_eq_ok.mp opened
        exact chunkVerifies_iff.mpr ⟨cipher, by rw [complete.files]; exact stored, size, same⟩

/-- A download into a library that succeeds leaves a completed share and an output with the hash of
the manifest. -/
theorem completedShare_of_downloadFromPeer {root : PathBuf} {attempt : Attempt}
    {peer : ConnectedDownloadPeer} {connection : Connection} {world after : DownloadWorld}
    {result : Manifest} {paths : LibraryPaths} (withLibrary : options.libraryRoot = some root)
    (here : paths = { root, shareId := (descriptorFromManifest prims peer.manifest).shareId })
    (finished : downloadFromPeer prims outputPath options attempt peer connection world =
      some (.ok result after)) :
    CompletedShare prims peer.manifest peer.fileKey after.disk paths ∧
    ∃ written, after.outputs outputPath = some written ∧
      hashFileId prims written = peer.manifest.fileId := by
  unfold downloadFromPeer at finished
  obtain ⟨failure, unread, stopped⟩ | ⟨failure, session, stopped, left⟩ |
      ⟨completed, session, library, prepared, records, -, marked, opened, handle, active,
        loaded⟩ :=
    run_prepareDownload withLibrary (outputParentDir outputPath) peer world.disk here
  · simp [stopped] at finished
  · simp [stopped] at finished
  · simp only [prepared] at finished
    split at finished
    · simp at finished
    · split at finished
      · rename_i loop final ended
        obtain ⟨current, kept, -, marks⟩ := windowRecords_of_run records marked ended
        obtain ⟨verified_library, verified⟩ := windowVerified_of_reaches active loaded ⟨_, ended⟩
        unfold finishDownload at finished
        split at finished
        · simp at finished
        · rename_i nothing
          have withHandle : final.active = some current := kept.active
          rw [if_pos (by simp [withHandle])] at finished
          have inside : ∀ index ∈ loop.completed, index ∈ peer.manifest.indices := by
            intro index member
            obtain ⟨entry, entry_mem, rfl, -⟩ := verified.download.completed index member
            exact List.mem_map_of_mem entry_mem
          refine completedShare_of_finishFromLibrary here kept (fun index => ?_) finished
          rw [marks, ← mem_completed_of_firstMissing inside nothing]
          simp
      · simp at finished
      · cases finished

end

end Etle
