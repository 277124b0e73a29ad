import Etle.State.OneByteShare
import Etle.Transfer.DownloadState

/-!
# Resuming over a damaged chunk store

Resuming checks every chunk that the stored progress lists.  A missing file and a file with another
hash are passed over; a file of another size ends the resumption with an error, although the check
that a server makes of the same store passes over it as well.
-/

namespace Etle

open Std (TreeSet)

section

variable {prims : Primitives} {disk : Disk} {state : ActiveDownloadLibraryState}

/-- A listed chunk whose file has the size of its entry is found exactly when its hash agrees. -/
theorem resumableEntries_of_sizes {entries : List ChunkMeta}
    (sizes : ∀ entry ∈ entries, state.progress.hasChunk entry.index = true →
      ∀ data, (disk state.paths).chunks (.chunk entry.index) = some data →
        UInt64.ofNat data.length = entry.encryptedSize) :
    ∃ valid, resumableEntries prims disk state entries = .ok valid ∧
      ∀ entry, entry ∈ valid.map Prod.fst ↔ entry ∈ entries ∧
        state.progress.hasChunk entry.index = true ∧
          chunkVerifies prims disk state.paths entry := by
  induction entries with
  | nil => exact ⟨[], rfl, by simp⟩
  | cons entry rest ih =>
      obtain ⟨valid, found, members⟩ :=
        ih fun other member => sizes other (List.mem_cons_of_mem _ member)
      unfold resumableEntries
      by_cases skipped : (!state.progress.hasChunk entry.index ||
          !hasChunk disk state.paths entry.index) = true
      · refine ⟨valid, by rw [if_pos skipped, found], fun other => ?_⟩
        rw [members, List.mem_cons]
        constructor
        · rintro ⟨member, listed⟩
          exact ⟨.inr member, listed⟩
        · rintro ⟨rfl | member, listed, verifies⟩
          · obtain ⟨data, stored, -⟩ := chunkVerifies_iff.mp verifies
            simp [listed, hasChunk, stored] at skipped
          · exact ⟨member, listed, verifies⟩
      · obtain ⟨listed, present⟩ : state.progress.hasChunk entry.index = true ∧
            hasChunk disk state.paths entry.index = true := by simpa using skipped
        obtain ⟨data, stored⟩ := Option.isSome_iff_exists.mp present
        have read : readChunk disk state.paths entry.index entry.encryptedSize =
            .ok { index := entry.index, data } := by
          simp [readChunk, stored, sizes entry List.mem_cons_self listed data stored]
        rw [if_neg skipped, read, found]
        by_cases hash : hashChunk prims data = entry.blake3Hash
        · refine ⟨(entry, { index := entry.index, data }) :: valid, by simp [hash, bind,
            Except.bind, pure, Except.pure], fun other => ?_⟩
          rw [List.map_cons, List.mem_cons, List.mem_cons, members]
          constructor
          · rintro (rfl | ⟨member, rest⟩)
            · exact ⟨.inl rfl, listed, by simp [chunkVerifies, read, hash]⟩
            · exact ⟨.inr member, rest⟩
          · rintro ⟨rfl | member, rest⟩
            · exact .inl rfl
            · exact .inr ⟨member, rest⟩
        · refine ⟨valid, by simp [hash, bind, Except.bind, pure, Except.pure], fun other => ?_⟩
          rw [members, List.mem_cons]
          constructor
          · rintro ⟨member, rest⟩
            exact ⟨.inr member, rest⟩
          · rintro ⟨rfl | member, rest⟩
            · simp [chunkVerifies, read, hash] at rest
            · exact ⟨member, rest⟩

/-- When resuming finds anything out, every listed chunk file has the size of its entry. -/
theorem sizes_of_resumableEntries {entries : List ChunkMeta}
    {valid : List (ChunkMeta × EncryptedChunk)}
    (found : resumableEntries prims disk state entries = .ok valid) :
    ∀ entry ∈ entries, state.progress.hasChunk entry.index = true →
      ∀ data, (disk state.paths).chunks (.chunk entry.index) = some data →
        UInt64.ofNat data.length = entry.encryptedSize := by
  induction entries generalizing valid with
  | nil => simp
  | cons entry rest ih =>
      unfold resumableEntries at found
      split at found
      · rename_i skipped
        intro other member listed data stored
        obtain rfl | member := List.mem_cons.mp member
        · simp [listed, hasChunk, stored] at skipped
        · exact ih found other member listed data stored
      · cases read : readChunk disk state.paths entry.index entry.encryptedSize with
        | error failure => simp [read, bind, Except.bind] at found
        | ok chunk =>
            cases others : resumableEntries prims disk state rest with
            | error failure => simp [read, others, bind, Except.bind] at found
            | ok later =>
                intro other member listed data stored
                obtain rfl | member := List.mem_cons.mp member
                · simp only [readChunk, stored] at read
                  split at read
                  · assumption
                  · cases read
                · exact ih others other member listed data stored

/-- What resuming finds are the listed entries that verify. -/
theorem mem_resumableEntries {entries : List ChunkMeta} {valid : List (ChunkMeta × EncryptedChunk)}
    (found : resumableEntries prims disk state entries = .ok valid) (entry : ChunkMeta) :
    entry ∈ valid.map Prod.fst ↔ entry ∈ entries ∧
      state.progress.hasChunk entry.index = true ∧ chunkVerifies prims disk state.paths entry := by
  obtain ⟨other, other_found, members⟩ :=
    @resumableEntries_of_sizes prims _ _ _ (sizes_of_resumableEntries found)
  obtain rfl : other = valid := by simpa [found] using other_found.symm
  exact members entry

end

end Etle
