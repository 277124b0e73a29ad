import Etle.Transfer.StoredChunks

/-!
# Verified chunks

An index is verified when its chunk file holds bytes with the hash of a manifest entry of that
index.  Resuming establishes that every recorded index is verified; storing verified bytes and then
marking their index keeps it.
-/

namespace Etle

open Std (TreeSet)

/-- The chunk file of an index holds bytes with the hash of a manifest entry of that index. -/
def VerifiedIndex (prims : Primitives) (manifest : Manifest) (dir : ShareDir) (index : UInt32) :
    Prop :=
  ∃ entry ∈ manifest.chunks, entry.index = index ∧
    ∃ data, dir.chunks (.chunk index) = some data ∧ hashChunk prims data = entry.blake3Hash

/-- Every index of the handle and of the stored progress is verified. -/
structure VerifiedState (prims : Primitives) (manifest : Manifest) (disk : Disk)
    (state : ActiveDownloadLibraryState) : Prop where
  owned : state.Owned
  ordered : state.progress.Ordered
  marked : ∀ index ∈ state.progress.completedChunks,
    VerifiedIndex prims manifest (disk state.paths) index
  stored : ∀ progress, (disk state.paths).progress = .value progress →
    ∀ index ∈ progress.completedChunks, VerifiedIndex prims manifest (disk state.paths) index

/-- The same for a session, which must have its library open. -/
def VerifiedSession (prims : Primitives) (manifest : Manifest) (session : LibrarySession) : Prop :=
  ∃ state, session.active = some state ∧ VerifiedState prims manifest session.disk state

section

variable {prims : Primitives} {manifest : Manifest}

/-- Replacing the file of one index by verified bytes keeps every other index verified. -/
theorem VerifiedIndex.replace {before after : ShareDir} {index other : UInt32} {entry : ChunkMeta}
    {data : Bytes} (member : entry ∈ manifest.chunks) (same : entry.index = index)
    (hash : hashChunk prims data = entry.blake3Hash)
    (placed : after.chunks (.chunk index) = some data)
    (kept : ∀ name, name ≠ index → after.chunks (.chunk name) = before.chunks (.chunk name))
    (verified : VerifiedIndex prims manifest before other ∨ other = index) :
    VerifiedIndex prims manifest after other := by
  by_cases here : other = index
  · subst here
    exact ⟨entry, member, same, data, placed, hash⟩
  · obtain ⟨witness, witness_mem, witness_index, bytes, stored, witness_hash⟩ :=
      verified.resolve_right here
    exact ⟨witness, witness_mem, witness_index, bytes, by rw [kept other here]; exact stored,
      witness_hash⟩

/-- A change that leaves the final chunk files and the records alone keeps a state verified. -/
theorem VerifiedState.congr {before after : Disk} {state : ActiveDownloadLibraryState}
    (verified : VerifiedState prims manifest before state)
    (files : ∀ index, (after state.paths).chunks (.chunk index) =
      (before state.paths).chunks (.chunk index))
    (progress : (after state.paths).progress = (before state.paths).progress) :
    VerifiedState prims manifest after state := by
  have same (index : UInt32) : VerifiedIndex prims manifest (after state.paths) index ↔
      VerifiedIndex prims manifest (before state.paths) index := by
    simp only [VerifiedIndex, files]
  refine ⟨verified.owned, verified.ordered, ?_, ?_⟩
  · intro index member
    exact (same index).mpr (verified.marked index member)
  · intro stored found index member
    exact (same index).mpr (verified.stored stored (progress ▸ found) index member)

/-- Recording verified bytes keeps the session verified, adds their index and forgets none. -/
theorem Recorded.verified {state : ActiveDownloadLibraryState} {index : UInt32}
    {outputDir : Option PathBuf} {files : ChunkFile → Option Bytes} {before after : LibrarySession}
    {entry : ChunkMeta} {data : Bytes}
    (recorded : Recorded state index outputDir files before after)
    (verified : VerifiedState prims manifest before.disk state)
    (member : entry ∈ manifest.chunks) (same : entry.index = index)
    (hash : hashChunk prims data = entry.blake3Hash) (placed : files (.chunk index) = some data)
    (kept : ∀ name, name ≠ index →
      files (.chunk name) = (before.disk state.paths).chunks (.chunk name)) :
    ∃ next, after.active = some next ∧ next.paths = state.paths ∧
      VerifiedState prims manifest after.disk next ∧
      VerifiedIndex prims manifest (after.disk state.paths) index ∧
      ∀ other, VerifiedIndex prims manifest (before.disk state.paths) other →
        VerifiedIndex prims manifest (after.disk state.paths) other := by
  have replace (other : UInt32)
      (known : VerifiedIndex prims manifest (before.disk state.paths) other ∨ other = index) :
      VerifiedIndex prims manifest (after.disk state.paths) other :=
    VerifiedIndex.replace member same hash (by rw [recorded.files]; exact placed)
      (fun name different => by rw [recorded.files]; exact kept name different) known
  have marked (other : UInt32) (found : other ∈ (state.marked index).progress.completedChunks) :
      VerifiedIndex prims manifest (after.disk state.paths) other := by
    obtain rfl | old := (DownloadProgress.mem_markCompleted verified.ordered index other).mp found
    · exact replace other (.inr rfl)
    · exact replace other (.inl (verified.marked other old))
  have ordered := verified.ordered.markCompleted index
  obtain ⟨active, progress, -⟩ | ⟨active, progress, -⟩ := recorded.records
  · refine ⟨_, active, rfl, ⟨verified.owned.marked index, ordered, marked, ?_⟩,
      replace index (.inr rfl), fun other known => replace other (.inl known)⟩
    intro stored found other found_other
    obtain rfl : (state.marked index).progress = stored := by
      simpa using progress.symm.trans found
    exact marked other found_other
  · refine ⟨_, active, rfl, ⟨verified.owned.marked index, ordered, marked, ?_⟩,
      replace index (.inr rfl), fun other known => replace other (.inl known)⟩
    intro stored found other found_other
    exact replace other
      (.inl (verified.stored stored (progress.symm.trans found) other found_other))

/-- Storing a chunk keeps the session verified, adds its index and forgets none. -/
theorem StoredChunk.verified {library : ActiveDownloadLibraryState} {entry : ChunkMeta}
    {index : UInt32} {outputDir : Option PathBuf} {temp : TempPath}
    {before after : LibrarySession}
    (stored : StoredChunk prims library entry index outputDir temp before after)
    (verified : VerifiedState prims manifest before.disk library)
    (member : entry ∈ manifest.chunks) (same : entry.index = index) :
    ∃ next, after.active = some next ∧ next.paths = library.paths ∧
      VerifiedState prims manifest after.disk next ∧
      VerifiedIndex prims manifest (after.disk library.paths) index ∧
      ∀ other, VerifiedIndex prims manifest (before.disk library.paths) other →
        VerifiedIndex prims manifest (after.disk library.paths) other := by
  obtain ⟨files, data, recorded, hash, placed, kept⟩ := stored
  exact recorded.verified verified member same hash placed
    fun name different => kept _ (by simpa using different) (by simp)

theorem VerifiedIndex.of_onlyTemp {before after : Disk} {temp : TempPath} {paths : LibraryPaths}
    {index : UInt32} (only : OnlyTemp temp before after)
    (verified : VerifiedIndex prims manifest (before paths) index) :
    VerifiedIndex prims manifest (after paths) index := by
  simpa only [VerifiedIndex, only.chunk] using verified

theorem VerifiedState.of_onlyTemp {before after : Disk} {temp : TempPath}
    {state : ActiveDownloadLibraryState} (only : OnlyTemp temp before after)
    (verified : VerifiedState prims manifest before state) :
    VerifiedState prims manifest after state :=
  verified.congr (only.chunk state.paths) (only.progress state.paths)

/-- Resuming establishes that everything recorded is verified, whatever was on disk before. -/
theorem verified_of_loadResumableChunkIndexes {outputDir : Option PathBuf}
    {session after : LibrarySession} {state : ActiveDownloadLibraryState}
    {completed : TreeSet UInt32} (active : session.active = some state)
    (loaded : (loadResumableChunkIndexes prims manifest outputDir).run session =
      .ok completed after) :
    ∃ next, after.active = some next ∧ next.paths = state.paths ∧
      VerifiedState prims manifest after.disk next ∧
      ∀ index ∈ completed, VerifiedIndex prims manifest (after.disk state.paths) index := by
  obtain ⟨valid, found, rfl, rfl⟩ := loadResumableChunkIndexes_eq_ok active loaded
  have sound := resumableEntries_sound found
  obtain ⟨owned, ordered, members⟩ :=
    progressOver_spec state.paths.shareId (valid.map Prod.fst)
  have verified (index : UInt32) (member : index ∈ (valid.map Prod.fst).map ChunkMeta.index) :
      VerifiedIndex prims manifest (flushedDir .downloading outputDir
        (progressOver state.paths.shareId (valid.map Prod.fst)) (session.disk state.paths))
        index := by
    obtain ⟨entry, entry_valid, rfl⟩ := List.mem_map.mp member
    obtain ⟨entry_mem, verifies⟩ := sound entry entry_valid
    obtain ⟨data, stored, -, hash⟩ := chunkVerifies_iff.mp verifies
    exact ⟨entry, entry_mem, rfl, data, stored, hash⟩
  refine ⟨_, rfl, rfl, ⟨owned, ordered, ?_, ?_⟩, ?_⟩
  · intro index member
    simpa [resumedSession] using verified index ((members index).mp member)
  · intro stored stored_found index member
    obtain rfl : progressOver state.paths.shareId (valid.map Prod.fst) = stored := by
      simpa [resumedSession, flushedDir] using stored_found
    simpa [resumedSession] using verified index ((members index).mp member)
  · intro index member
    simpa [resumedSession] using verified index (mem_completedOver.mp member)

end

end Etle
