import Etle.Transfer.Download
import Etle.Transfer.ReconstructEquivalence

/-!
# What a successful reconstruction shows

Whatever the manifest, the number of workers and the schedule: a reconstruction that succeeds has
decrypted every entry, and the bytes it has written have the hash of the manifest.  Of the library
it reads only the chunk files.
-/

namespace Etle

section

variable {prims : Primitives} {disk : Disk} {paths : LibraryPaths} {manifest : Manifest}
  {fileKey : SymmetricKey} {workerCount : Nat}

/-- A consumer without an error has just received a decrypted chunk. -/
theorem ok_of_consumeResult {order : List UInt32} {writes : Option Nat} {cursor next : WriteCursor}
    {result : DecryptResult} {failed : Bool}
    (consumed : consumeResult order writes cursor result = (next, failed))
    (clean : next.firstError = none) :
    cursor.firstError = none ∧ ∃ chunk, result = .ok chunk := by
  have same := congrArg (fun outcome => outcome.1.firstError) consumed
  dsimp only at same
  rw [clean] at same
  cases result with
  | error failure => simp [consumeResult] at same
  | ok chunk =>
      cases earlier : cursor.firstError with
      | none => exact ⟨rfl, chunk, rfl⟩
      | some failure => simp [consumeResult, earlier] at same

/-- Every entry of the manifest decrypts. -/
def AllDecrypt (prims : Primitives) (disk : Disk) (paths : LibraryPaths) (manifest : Manifest)
    (fileKey : SymmetricKey) : Prop :=
  ∀ entry ∈ manifest.chunks, ∃ chunk,
    decryptLibraryChunk prims disk paths manifest.fileId fileKey entry = .ok chunk

/-- As long as there is no error, everything the consumer has seen decrypts. -/
def Reconstruction.Sound (prims : Primitives) (disk : Disk) (paths : LibraryPaths)
    (manifest : Manifest) (fileKey : SymmetricKey) (state : Reconstruction workerCount) : Prop :=
  let decrypt := decryptLibraryChunk prims disk paths manifest.fileId fileKey
  match state.consumer with
  | .receiving received cursor =>
      ∃ seen, seen.length = received ∧ state.Accounts decrypt manifest seen ∧
        (cursor.firstError = none → ∀ entry ∈ seen, ∃ chunk, decrypt entry = .ok chunk)
  | .joining _ cursor =>
      cursor.firstError = none → AllDecrypt prims disk paths manifest fileKey
  | .unwinding _ _ => True
  | .returned written outcome =>
      outcome = .ok () → hashFileId prims written = manifest.fileId ∧
        AllDecrypt prims disk paths manifest fileKey

/-- A step of a worker keeps what the consumer knows. -/
theorem Reconstruction.Sound.of_accounts {state next : Reconstruction workerCount}
    (sound : state.Sound prims disk paths manifest fileKey)
    (same : next.consumer = state.consumer)
    (keeps : ∀ seen,
      state.Accounts (decryptLibraryChunk prims disk paths manifest.fileId fileKey) manifest seen →
      next.Accounts (decryptLibraryChunk prims disk paths manifest.fileId fileKey) manifest seen) :
    next.Sound prims disk paths manifest fileKey := by
  unfold Reconstruction.Sound at sound ⊢
  rw [same]
  cases phase : state.consumer with
  | receiving received cursor =>
      simp only [phase] at sound ⊢
      obtain ⟨seen, count, accounts, decrypted⟩ := sound
      exact ⟨seen, count, keeps seen accounts, decrypted⟩
  | joining | returned => simpa only [phase] using sound
  | unwinding => trivial

theorem finalizeStreamedOutput_eq_ok {written : Bytes} {fileId : FileId} :
    finalizeStreamedOutput prims written fileId = .ok () ↔ hashFileId prims written = fileId := by
  unfold finalizeStreamedOutput
  split <;> simp_all

theorem reconstructOutcome_eq_ok {fileId : FileId} {cursor : WriteCursor}
    (succeeded : reconstructOutcome prims fileId cursor = .ok ()) :
    cursor.firstError = none ∧ hashFileId prims cursor.written = fileId := by
  unfold reconstructOutcome at succeeded
  split at succeeded
  · cases succeeded
  · rename_i clean
    split at succeeded
    · exact ⟨clean, finalizeStreamedOutput_eq_ok.mp succeeded⟩
    · cases succeeded

theorem sound_initial :
    (Reconstruction.initial manifest workerCount).Sound prims disk paths manifest fileKey :=
  ⟨[], rfl, .initial manifest, by simp⟩

theorem sound_of_step (state : Reconstruction workerCount) (event : ReconstructEvent workerCount)
    (next : Reconstruction workerCount)
    (sound : state.Sound prims disk paths manifest fileKey)
    (step : (decryptLibraryChunksToFileParallel prims disk paths manifest fileKey
      workerCount).step state event = some next) :
    next.Sound prims disk paths manifest fileKey := by
  cases reconstructMove_of_step step with
  | stop popping empty => exact sound.of_accounts rfl fun _ accounts => accounts.stop popping
  | take popping queued =>
      exact sound.of_accounts rfl fun _ accounts => accounts.take popping queued
  | send holding room => exact sound.of_accounts rfl fun _ accounts => accounts.send holding
  | @receive writes received cursor nextCursor result rest waiting arrived more consumed =>
      simp only [Reconstruction.Sound, waiting] at sound ⊢
      obtain ⟨seen, count, accounts, decrypted⟩ := sound
      obtain ⟨entry, rfl, later⟩ := accounts.receive _ arrived
      refine ⟨entry :: seen, by simp [count], later, fun clean other member => ?_⟩
      obtain ⟨earlier, chunk, decrypts⟩ := ok_of_consumeResult consumed clean
      obtain rfl | member := List.mem_cons.mp member
      · exact ⟨chunk, decrypts⟩
      · exact decrypted earlier other member
  | writeFails waiting arrived more failed => trivial
  | disconnected waiting empty more finished => simp [Reconstruction.Sound]
  | @leaveLoop received cursor waiting complete =>
      simp only [Reconstruction.Sound, waiting] at sound ⊢
      obtain ⟨seen, count, accounts, decrypted⟩ := sound
      intro clean entry member
      refine decrypted clean entry ?_
      rw [← Multiset.mem_coe, accounts.seen_eq (by omega), Multiset.mem_coe]
      exact member
  | @join received cursor joining finished =>
      simp only [Reconstruction.Sound, joining] at sound ⊢
      intro succeeded
      obtain ⟨clean, hash⟩ := reconstructOutcome_eq_ok succeeded
      exact ⟨hash, sound clean⟩
  | leaveScope unwinding finished => simp [Reconstruction.Sound]

/-- The sequential writer succeeds only if every entry decrypts. -/
theorem allDecrypt_of_sequential {written : Bytes}
    (succeeded : decryptLibraryChunksToFileSequential prims disk paths manifest fileKey =
      (written, .ok ())) :
    hashFileId prims written = manifest.fileId ∧ AllDecrypt prims disk paths manifest fileKey := by
  unfold decryptLibraryChunksToFileSequential at succeeded
  split at succeeded
  · simp at succeeded
  · rename_i bytes appended
    obtain ⟨rfl, finalized⟩ : bytes = written ∧ _ := by simpa using succeeded
    refine ⟨finalizeStreamedOutput_eq_ok.mp finalized, fun entry member => ?_⟩
    cases decrypts : decryptLibraryChunk prims disk paths manifest.fileId fileKey entry with
    | ok chunk => exact ⟨chunk, rfl⟩
    | error failure =>
        obtain ⟨cause, failed⟩ := writeDecrypted_of_error member decrypts []
        simp [appended] at failed

/-- A reconstruction that succeeds has decrypted every entry and written bytes with the right
hash. -/
theorem decryptLibraryChunksToFile_ok {schedule : DecryptSchedule} {written : Bytes}
    (succeeded : decryptLibraryChunksToFile prims disk paths manifest fileKey schedule =
      some (written, .ok ())) :
    hashFileId prims written = manifest.fileId ∧ AllDecrypt prims disk paths manifest fileKey := by
  unfold decryptLibraryChunksToFile at succeeded
  dsimp only at succeeded
  split at succeeded
  · exact allDecrypt_of_sequential (Option.some.inj succeeded)
  · split at succeeded
    · rename_i queue workers channel bytes outcome run
      obtain ⟨rfl, rfl⟩ : bytes = written ∧ outcome = .ok () := by simpa using succeeded
      exact Machine.invariant_of_reaches sound_of_step sound_initial ⟨_, run⟩ rfl
    · cases succeeded

/-- Only the chunk files of the share matter. -/
theorem decryptLibraryChunk_congr {other : Disk} {elsewhere : LibraryPaths}
    (same : (other elsewhere).chunks = (disk paths).chunks) (fileId : FileId) :
    decryptLibraryChunk prims other elsewhere fileId fileKey =
      decryptLibraryChunk prims disk paths fileId fileKey := by
  funext entry
  simp only [decryptLibraryChunk, readChunk, same]

theorem decryptLibraryChunksToFile_congr {other : Disk} {elsewhere : LibraryPaths}
    (same : (other elsewhere).chunks = (disk paths).chunks) (schedule : DecryptSchedule) :
    decryptLibraryChunksToFile prims other elsewhere manifest fileKey schedule =
      decryptLibraryChunksToFile prims disk paths manifest fileKey schedule := by
  simp only [decryptLibraryChunksToFile, decryptLibraryChunksToFileSequential,
    decryptLibraryChunksToFileParallel, sendResult, decryptLibraryChunk_congr same]

end

end Etle
