import Etle.State.Codec
import Mathlib.Data.Finset.Card

/-!
# Progress as a set of chunks

Progress is built by the constructors, which sort and drop repetitions, or read from a file, and
then chunks are marked.  A file of the compact form is read through a constructor, but one of the
older form is taken as it is.
-/

namespace Etle

/-- Progress behaves as a set: its list is strictly increasing, lookups find exactly its elements,
marking adds exactly one element, and completeness counts distinct chunks. -/
structure DownloadProgress.BehavesAsSet (progress : DownloadProgress) : Prop where
  increasing : progress.completedChunks.Pairwise (· < ·)
  finds : ∀ index, progress.hasChunk index = true ↔ index ∈ progress.completedChunks
  adds : ∀ index other, other ∈ (progress.markCompleted index).completedChunks ↔
    other = index ∨ other ∈ progress.completedChunks
  counts : ∀ totalChunks, progress.isComplete totalChunks = true ↔
    progress.completedChunks.toFinset.card = totalChunks

/-- Where progress comes from. -/
inductive ProgressOrigin where
  | new (shareId : ShareId) (completedChunks : List UInt32)
  | empty (shareId : ShareId)
  | fromBytes (bytes : Bytes)

/-- The progress that is obtained. -/
def ProgressOrigin.value (bincode : RecordBincode) :
    ProgressOrigin → Except DecodeError DownloadProgress
  | .new shareId completedChunks => .ok (.new shareId completedChunks)
  | .empty shareId => .ok (.empty shareId)
  | .fromBytes bytes => decodeProgress bincode bytes

/-- A file of the older form lists increasing indices. -/
def ProgressOrigin.Increasing (bincode : RecordBincode) : ProgressOrigin → Prop
  | .new _ _ | .empty _ => True
  | .fromBytes bytes => stripPrefix compactProgressMagic bytes = none →
      ∀ progress bytesRead,
        bincode.legacyProgress.decodeFromSlice bytes = some (progress, bytesRead) →
        progress.completedChunks.Pairwise (· < ·)

namespace DownloadProgress

theorem ordered_iff {progress : DownloadProgress} :
    progress.Ordered ↔ progress.completedChunks.Pairwise (· < ·) := by
  have same (first second : UInt32) : compare first second = .lt ↔ first < second := by
    by_cases less : first < second
    · simp [compare, compareOfLessAndEq, less]
    · by_cases equal : first = second
      · simp [compare, compareOfLessAndEq, equal]
      · simp [compare, compareOfLessAndEq, less, equal]
  simp [Ordered, StrictlyOrdered, same]

/-- Progress behaves as a set exactly when its list is strictly increasing. -/
theorem behavesAsSet_iff {progress : DownloadProgress} :
    progress.BehavesAsSet ↔ progress.completedChunks.Pairwise (· < ·) := by
  constructor
  · exact BehavesAsSet.increasing
  · intro increasing
    have ordered := ordered_iff.mpr increasing
    refine ⟨increasing, hasChunk_iff ordered, mem_markCompleted ordered, fun totalChunks => ?_⟩
    rw [List.toFinset_card_of_nodup (increasing.imp fun less => UInt32.ne_of_lt less)]
    simp [isComplete]

/-- Marking keeps what is recorded, in the same order. -/
theorem sublist_markCompleted (progress : DownloadProgress) (index : UInt32) :
    progress.completedChunks.Sublist (progress.markCompleted index).completedChunks := by
  unfold markCompleted
  split
  · exact List.Sublist.refl _
  · exact List.sublist_insertIdx _ _ _

/-- Marking neither breaks nor repairs the order. -/
theorem increasing_marks_iff (progress : DownloadProgress) (marks : List UInt32) :
    (marks.foldl markCompleted progress).completedChunks.Pairwise (· < ·) ↔
      progress.completedChunks.Pairwise (· < ·) := by
  induction marks generalizing progress with
  | nil => rfl
  | cons index marks ih =>
      rw [List.foldl_cons, ih]
      constructor
      · intro increasing
        exact increasing.sublist (progress.sublist_markCompleted index)
      · intro increasing
        exact ordered_iff.mp ((ordered_iff.mpr increasing).markCompleted index)

end DownloadProgress

/-- The list is increasing at the start, unless a file of the older form says otherwise. -/
theorem ProgressOrigin.increasing_iff {bincode : RecordBincode} {origin : ProgressOrigin}
    {start : DownloadProgress} (valid : origin.value bincode = .ok start) :
    start.completedChunks.Pairwise (· < ·) ↔ origin.Increasing bincode := by
  cases origin with
  | new shareId completedChunks =>
      obtain rfl := Except.ok.inj valid
      simp [Increasing, DownloadProgress.new, increasing_normalizeChunkList]
  | empty shareId =>
      obtain rfl := Except.ok.inj valid
      simp [Increasing]
  | fromBytes bytes =>
      simp only [value, decodeProgress] at valid
      simp only [Increasing]
      cases stripped : stripPrefix compactProgressMagic bytes with
      | some payload =>
          rw [stripped] at valid
          have normal : ∃ compact, CompactDownloadProgress.intoProgress compact = start := by
            cases decoded : decodeExact bincode.progress payload "compact progress" with
            | error error => simp [decoded, bind, Except.bind] at valid
            | ok compact =>
                refine ⟨compact, ?_⟩
                simpa [decoded, bind, Except.bind, pure, Except.pure] using valid
          obtain ⟨compact, rfl⟩ := normal
          simp [CompactDownloadProgress.intoProgress, DownloadProgress.new,
            increasing_normalizeChunkList]
      | none =>
          rw [stripped] at valid
          have decoded := decodeExact_eq_ok.mp valid
          constructor
          · rintro increasing - progress bytesRead other
            obtain ⟨rfl, -⟩ : start = progress ∧ bytes.length = bytesRead := by
              simpa using decoded.symm.trans other
            exact increasing
          · intro listed
            exact listed rfl start bytes.length decoded

/-- Whatever chunks are marked, progress behaves as a set exactly when it was not read from a file
of the older form whose list is not strictly increasing. -/
theorem progress_behaves_as_set_iff (bincode : RecordBincode) (origin : ProgressOrigin)
    (start : DownloadProgress) (valid : origin.value bincode = .ok start) (marks : List UInt32) :
    (marks.foldl DownloadProgress.markCompleted start).BehavesAsSet ↔
      origin.Increasing bincode := by
  rw [DownloadProgress.behavesAsSet_iff, DownloadProgress.increasing_marks_iff,
    ProgressOrigin.increasing_iff valid]

/-- Progress from an unsorted list, with one more chunk marked. -/
theorem progress_behaves_as_set_unsorted :
    (([7] : List UInt32).foldl DownloadProgress.markCompleted
      (.new ⟨Vector.replicate 32 0⟩ [9, 2, 9])).BehavesAsSet :=
  (progress_behaves_as_set_iff recordBincode (.new ⟨Vector.replicate 32 0⟩ [9, 2, 9]) _ rfl
    [7]).mpr trivial

/-- A file of the older form with the list 2, 1. -/
def unsortedLegacyProgress : Bytes := List.replicate 32 0 ++ [2, 2, 1]

/-- The file is accepted, but chunk 2 is not found in the progress that was read from it. -/
theorem progress_misbehaves_unsorted_legacy :
    ∃ start, (ProgressOrigin.fromBytes unsortedLegacyProgress).value recordBincode = .ok start ∧
      2 ∈ start.completedChunks ∧ start.hasChunk 2 = false ∧ ¬start.BehavesAsSet := by
  refine ⟨{ shareId := ⟨Vector.replicate 32 0⟩, completedChunks := [2, 1] }, by decide +kernel,
    by decide, by decide, ?_⟩
  rw [DownloadProgress.behavesAsSet_iff]
  decide

end Etle
