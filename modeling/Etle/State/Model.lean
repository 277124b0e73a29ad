import Etle.Foundations.BinarySearch
import Etle.Protocol.Message
import Mathlib.Data.List.Destutter
import Mathlib.Data.List.Sort

/-!
# The records of a share directory

Progress is a list of chunk indices that every operation keeps strictly increasing, so the binary
searches in it are exact.  The other records are plain data.
-/

namespace Etle

/-- What the daemon does with a share. -/
inductive ShareMode where
  | seeding
  | downloading
  | completed
  | paused
  deriving DecidableEq

/-- The stored file key of a share. -/
structure EtleSecret where
  shareId : ShareId
  fileKey : SymmetricKey
  deriving DecidableEq

/-- The chunks of a share that are verified and stored. -/
structure DownloadProgress where
  shareId : ShareId
  completedChunks : List UInt32
  deriving DecidableEq

/-- The operational state of a share. -/
structure ShareState where
  shareId : ShareId
  mode : ShareMode
  outputDir : Option PathBuf
  completedChunks : List UInt32
  deriving DecidableEq

/-- Sort a list of indices and drop repetitions. -/
def normalizeChunkList (chunks : List UInt32) : List UInt32 :=
  (chunks.insertionSort (· ≤ ·)).destutter (· ≠ ·)

/-- Dropping repetitions keeps every element. -/
theorem mem_destutter'_ne {α : Type} [DecidableEq α] {element first : α} {rest : List α} :
    element ∈ rest.destutter' (· ≠ ·) first ↔ element = first ∨ element ∈ rest := by
  induction rest generalizing first with
  | nil => simp
  | cons next rest ih =>
      by_cases same : first = next
      · subst same
        rw [List.destutter'_cons_neg _ (by simp), ih]
        simp
      · rw [List.destutter'_cons_pos _ same, List.mem_cons, ih, List.mem_cons]

theorem mem_normalizeChunkList {index : UInt32} {chunks : List UInt32} :
    index ∈ normalizeChunkList chunks ↔ index ∈ chunks := by
  have sorted : index ∈ chunks.insertionSort (· ≤ ·) ↔ index ∈ chunks := List.mem_insertionSort _
  rw [← sorted, normalizeChunkList]
  cases chunks.insertionSort (· ≤ ·) with
  | nil => simp
  | cons first rest => rw [List.destutter_cons', mem_destutter'_ne, List.mem_cons]

/-- Sorted elements of which no two neighbours are equal increase. -/
theorem increasing_of_sorted {chunks : List UInt32} (sorted : chunks.Pairwise (· ≤ ·))
    (distinct : chunks.IsChain (· ≠ ·)) : chunks.Pairwise (· < ·) := by
  induction chunks with
  | nil => exact .nil
  | cons first rest ih =>
      obtain ⟨least, sorted⟩ := List.pairwise_cons.mp sorted
      have later := ih sorted distinct.tail
      refine List.pairwise_cons.mpr ⟨?_, later⟩
      cases rest with
      | nil => simp
      | cons second rest =>
          have step : first < second :=
            UInt32.lt_of_le_of_ne (least second List.mem_cons_self)
              (List.isChain_cons_cons.mp distinct).1
          rintro other member
          obtain rfl | member := List.mem_cons.mp member
          · exact step
          · exact UInt32.lt_trans step ((List.pairwise_cons.mp later).1 other member)

theorem increasing_normalizeChunkList (chunks : List UInt32) :
    (normalizeChunkList chunks).Pairwise (· < ·) := by
  have sorted : (normalizeChunkList chunks).Pairwise (· ≤ ·) :=
    (List.pairwise_insertionSort (· ≤ ·) chunks).sublist (List.destutter_sublist _ _)
  have distinct : (normalizeChunkList chunks).IsChain (· ≠ ·) := List.isChain_destutter _ _
  exact increasing_of_sorted sorted distinct

theorem strictlyOrdered_normalizeChunkList (chunks : List UInt32) :
    StrictlyOrdered (normalizeChunkList chunks) :=
  (increasing_normalizeChunkList chunks).imp fun less => by
    simp [compare, compareOfLessAndEq, less]

/-- An increasing list with the same elements is the normal form. -/
theorem eq_normalizeChunkList {chunks increasing : List UInt32}
    (ordered : increasing.Pairwise (· < ·)) (same : ∀ index, index ∈ increasing ↔ index ∈ chunks) :
    increasing = normalizeChunkList chunks :=
  ordered.eq_of_mem_iff (increasing_normalizeChunkList chunks) fun index => by
    rw [same, mem_normalizeChunkList]

@[simp]
theorem normalizeChunkList_idem (chunks : List UInt32) :
    normalizeChunkList (normalizeChunkList chunks) = normalizeChunkList chunks :=
  (eq_normalizeChunkList (increasing_normalizeChunkList chunks) fun _ => Iff.rfl).symm

/-- An ordered list is its own normal form. -/
theorem StrictlyOrdered.normalizeChunkList_eq {chunks : List UInt32}
    (ordered : StrictlyOrdered chunks) : normalizeChunkList chunks = chunks := by
  have increasing : chunks.Pairwise (· < ·) := ordered.imp compareOfLessAndEq_eq_lt.mp
  exact (eq_normalizeChunkList increasing fun _ => Iff.rfl).symm

/-- An ordered list has each index at most once. -/
theorem StrictlyOrdered.length_lt {chunks : List UInt32} (ordered : StrictlyOrdered chunks) :
    chunks.length < 2 ^ 64 := by
  have distinct : (chunks.map UInt32.toNat).Nodup := List.pairwise_map.mpr <|
    ordered.imp fun {first second} less same => by
      have smaller : first < second := compareOfLessAndEq_eq_lt.mp less
      rw [UInt32.lt_iff_toNat_lt] at smaller
      omega
  have inside : chunks.map UInt32.toNat ⊆ List.range (2 ^ 32) := by
    intro position member
    obtain ⟨index, -, rfl⟩ := List.mem_map.mp member
    exact List.mem_range.mpr index.toNat_lt
  have few := (List.subperm_of_subset distinct inside).length_le
  rw [List.length_map, List.length_range] at few
  omega

theorem length_normalizeChunkList_le (chunks : List UInt32) :
    (normalizeChunkList chunks).length ≤ chunks.length := by
  have shorter := (List.destutter_sublist (· ≠ ·) (chunks.insertionSort (· ≤ ·))).length_le
  rwa [List.length_insertionSort] at shorter

namespace DownloadProgress

/-- Progress over the given chunks. -/
def new (shareId : ShareId) (completedChunks : List UInt32) : DownloadProgress where
  shareId := shareId
  completedChunks := normalizeChunkList completedChunks

/-- No chunk is completed. -/
def empty (shareId : ShareId) : DownloadProgress := new shareId []

/-- Add one chunk unless it is already there. -/
def markCompleted (progress : DownloadProgress) (index : UInt32) : DownloadProgress :=
  match binarySearch progress.completedChunks index with
  | .ok _ => progress
  | .error position =>
      { progress with completedChunks := progress.completedChunks.insertIdx position index }

/-- The chunk is recorded as completed. -/
def hasChunk (progress : DownloadProgress) (index : UInt32) : Bool :=
  (binarySearch progress.completedChunks index).isOk

/-- As many chunks are recorded as there are in all. -/
def isComplete (progress : DownloadProgress) (totalChunks : Nat) : Bool :=
  progress.completedChunks.length = totalChunks

@[simp]
theorem empty_completedChunks (shareId : ShareId) : (empty shareId).completedChunks = [] := rfl

@[simp]
theorem empty_shareId (shareId : ShareId) : (empty shareId).shareId = shareId := rfl

@[simp]
theorem markCompleted_shareId (progress : DownloadProgress) (index : UInt32) :
    (progress.markCompleted index).shareId = progress.shareId := by
  unfold markCompleted
  split <;> rfl

/-- The recorded chunks are strictly increasing. -/
def Ordered (progress : DownloadProgress) : Prop := StrictlyOrdered progress.completedChunks

theorem ordered_new (shareId : ShareId) (completedChunks : List UInt32) :
    (new shareId completedChunks).Ordered :=
  strictlyOrdered_normalizeChunkList completedChunks

theorem ordered_empty (shareId : ShareId) : (empty shareId).Ordered := List.Pairwise.nil

theorem Ordered.markCompleted {progress : DownloadProgress} (ordered : progress.Ordered)
    (index : UInt32) : (progress.markCompleted index).Ordered := by
  unfold DownloadProgress.markCompleted
  split
  · exact ordered
  · rename_i position missing
    exact StrictlyOrdered.insertIdx ordered missing

/-- Marking a chunk adds exactly that chunk. -/
theorem mem_markCompleted {progress : DownloadProgress} (ordered : progress.Ordered)
    (index other : UInt32) :
    other ∈ (progress.markCompleted index).completedChunks ↔
      other = index ∨ other ∈ progress.completedChunks := by
  unfold DownloadProgress.markCompleted
  split
  · rename_i position found
    have present := List.mem_of_getElem? (getElem?_of_binarySearch_ok found)
    constructor
    · exact Or.inr
    · rintro (rfl | member)
      · exact present
      · exact member
  · rename_i position missing
    obtain ⟨bound, -⟩ := gap_of_binarySearch_error ordered missing
    exact List.mem_insertIdx bound

/-- On ordered progress the search finds exactly the recorded chunks. -/
theorem hasChunk_iff {progress : DownloadProgress} (ordered : progress.Ordered)
    (index : UInt32) : progress.hasChunk index = true ↔ index ∈ progress.completedChunks :=
  binarySearch_isOk_iff ordered

end DownloadProgress

namespace ShareState

/-- A state over the given chunks. -/
def new (shareId : ShareId) (mode : ShareMode) (outputDir : Option PathBuf)
    (completedChunks : List UInt32) : ShareState where
  shareId := shareId
  mode := mode
  outputDir := outputDir
  completedChunks := normalizeChunkList completedChunks

/-- The state that goes with some progress. -/
def fromProgress (mode : ShareMode) (outputDir : Option PathBuf)
    (progress : DownloadProgress) : ShareState :=
  new progress.shareId mode outputDir progress.completedChunks

@[simp]
theorem fromProgress_mode (mode : ShareMode) (outputDir : Option PathBuf)
    (progress : DownloadProgress) : (fromProgress mode outputDir progress).mode = mode := rfl

@[simp]
theorem fromProgress_shareId (mode : ShareMode) (outputDir : Option PathBuf)
    (progress : DownloadProgress) :
    (fromProgress mode outputDir progress).shareId = progress.shareId := rfl

end ShareState

end Etle
