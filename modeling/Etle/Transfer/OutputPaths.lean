import Etle.State.OneByteShare
import Etle.Transfer.ReconstructOutcome

/-!
# Two ways to the output file

A download into memory joins its chunks in the order of their indices and checks the hash of the
result before it writes a file.  A download into a library creates the file, follows the manifest
and checks the size of every chunk.  Here is where the two agree, and what the second one leaves of
a file that was there before.
-/

namespace Etle

open Std (TreeMap)

/-! ## Opened chunks -/

/-- The stored chunks of the entries have the hashes of their entries and decrypt to the given
plaintexts. -/
def Opens (prims : Primitives) (fileId : FileId) (fileKey : SymmetricKey)
    (store : UInt32 → Option Bytes) : List ChunkMeta → List Bytes → Prop :=
  List.Forall₂ fun entry data => ∃ cipher, store entry.index = some cipher ∧
    hashChunk prims cipher = entry.blake3Hash ∧
    decryptChunk prims fileKey entry.nonce cipher
      (buildChunkAad fileId entry.index entry.plainSize) = .ok data

/-- The stored chunks and their plaintexts have the sizes that the entries declare. -/
def SizesRight (store : UInt32 → Option Bytes) : List ChunkMeta → List Bytes → Prop :=
  List.Forall₂ fun entry data =>
    (∀ cipher, store entry.index = some cipher →
      UInt64.ofNat cipher.length = entry.encryptedSize) ∧
    UInt64.ofNat data.length = entry.plainSize

/-- The plaintexts of the entries, labelled with their indices. -/
def labelled (entries : List ChunkMeta) (plain : List Bytes) : List DecryptedChunk :=
  List.zipWith (fun entry data => { index := entry.index, data }) entries plain

section

variable {prims : Primitives} {fileId : FileId} {fileKey : SymmetricKey}
  {store : UInt32 → Option Bytes} {entries : List ChunkMeta} {plain other : List Bytes}

theorem Opens.unique (first : Opens prims fileId fileKey store entries plain)
    (second : Opens prims fileId fileKey store entries other) : plain = other := by
  induction first generalizing other with
  | nil =>
      cases second
      rfl
  | cons head tail ih =>
      cases second with
      | cons otherHead otherTail =>
          obtain ⟨cipher, stored, -, decrypted⟩ := head
          obtain ⟨otherCipher, otherStored, -, otherDecrypted⟩ := otherHead
          obtain rfl := Option.some.inj (stored.symm.trans otherStored)
          obtain rfl := Except.ok.inj (decrypted.symm.trans otherDecrypted)
          rw [ih otherTail]

/-- Chunks in memory decrypt exactly when they open. -/
theorem decryptChunks_eq_ok {chunks : TreeMap UInt32 EncryptedChunk}
    {result : List DecryptedChunk} :
    decryptChunks prims fileId chunks fileKey entries = .ok result ↔
      ∃ plain, Opens prims fileId fileKey (bytesAt chunks) entries plain ∧
        result = labelled entries plain := by
  induction entries generalizing result with
  | nil =>
      constructor
      · intro decrypted
        obtain rfl : [] = result := by simpa [decryptChunks] using decrypted
        exact ⟨[], .nil, rfl⟩
      · rintro ⟨plain, -, rfl⟩
        rfl
  | cons entry rest ih =>
      unfold decryptChunks
      constructor
      · intro decrypted
        split at decrypted
        · cases decrypted
        · rename_i chunk found
          split at decrypted
          · cases decrypted
          · rename_i hash
            split at decrypted
            · cases decrypted
            · rename_i data opened
              cases later : decryptChunks prims fileId chunks fileKey rest with
              | error failure => simp [later, bind, Except.bind] at decrypted
              | ok others =>
                  obtain ⟨plain, opens, rfl⟩ := ih.mp later
                  obtain rfl : { index := entry.index, data } :: labelled rest plain = result := by
                    simpa [later, bind, Except.bind, pure, Except.pure] using decrypted
                  refine ⟨data :: plain, .cons ?_ opens, rfl⟩
                  exact ⟨chunk.data, by simp [bytesAt, found], not_not.mp hash, opened⟩
      · rintro ⟨plain, opens, rfl⟩
        cases opens with
        | cons head tail =>
            obtain ⟨cipher, stored, hash, opened⟩ := head
            obtain ⟨chunk, found, rfl⟩ := Option.map_eq_some_iff.mp stored
            have later := ih.mpr ⟨_, tail, rfl⟩
            simp [found, hash, opened, later, bind, Except.bind, pure, Except.pure, labelled]

/-- A file in memory decrypts exactly when its chunks open and their bytes in the order of the
indices have its hash. -/
theorem decryptToBytes_eq_ok {manifest : Manifest} {chunks : TreeMap UInt32 EncryptedChunk}
    {bytes : Bytes} :
    decryptToBytes prims manifest chunks fileKey = .ok bytes ↔
      ∃ plain, Opens prims manifest.fileId fileKey (bytesAt chunks) manifest.chunks plain ∧
        hashFileId prims (joinChunks (labelled manifest.chunks plain)) = manifest.fileId ∧
        bytes = joinChunks (labelled manifest.chunks plain) := by
  unfold decryptToBytes
  cases decrypted : decryptChunks prims manifest.fileId chunks fileKey manifest.chunks with
  | error failure =>
      constructor
      · intro impossible
        cases impossible
      · rintro ⟨plain, opens, -⟩
        exact absurd (decrypted.symm.trans (decryptChunks_eq_ok.mpr ⟨plain, opens, rfl⟩)) (by simp)
  | ok result =>
      obtain ⟨plain, opens, rfl⟩ := decryptChunks_eq_ok.mp decrypted
      simp only [bind, Except.bind, pure, Except.pure]
      constructor
      · intro succeeded
        split at succeeded
        · cases succeeded
        · rename_i hash
          exact ⟨plain, opens, not_not.mp hash, (Except.ok.inj succeeded).symm⟩
      · rintro ⟨same, others, hash, rfl⟩
        obtain rfl := opens.unique others
        rw [if_neg (not_not.mpr hash)]

/-- The sequential writer succeeds exactly when every entry decrypts, and then it has appended the
decrypted chunks. -/
theorem writeDecrypted_eq_ok {decrypt : ChunkMeta → DecryptResult} {before after : Bytes} :
    writeDecrypted decrypt before entries = (after, .ok ()) ↔
      ∃ chunks, List.Forall₂ (fun entry chunk => decrypt entry = .ok chunk) entries chunks ∧
        after = before ++ chunks.flatMap DecryptedChunk.data := by
  induction entries generalizing before with
  | nil =>
      constructor
      · intro wrote
        exact ⟨[], .nil, by simpa [writeDecrypted, eq_comm] using wrote⟩
      · rintro ⟨chunks, none_left, rfl⟩
        cases none_left
        simp [writeDecrypted]
  | cons entry rest ih =>
      unfold writeDecrypted
      constructor
      · intro wrote
        split at wrote
        · simp at wrote
        · rename_i chunk decrypted
          obtain ⟨chunks, others, rfl⟩ := ih.mp wrote
          exact ⟨chunk :: chunks, .cons decrypted others, by simp⟩
      · rintro ⟨chunks, all, rfl⟩
        cases all with
        | cons decrypted others =>
            rw [decrypted]
            exact ih.mpr ⟨_, others, by simp⟩

/-- Chunks of a library decrypt exactly when they open and have the declared sizes. -/
theorem forall₂_decryptLibraryChunk {disk : Disk} {paths : LibraryPaths}
    (same : ∀ entry ∈ entries, (disk paths).chunks (.chunk entry.index) = store entry.index)
    {chunks : List DecryptedChunk} :
    List.Forall₂ (fun entry chunk =>
      decryptLibraryChunk prims disk paths fileId fileKey entry = .ok chunk) entries chunks ↔
      ∃ plain, Opens prims fileId fileKey store entries plain ∧ SizesRight store entries plain ∧
        chunks = labelled entries plain := by
  induction entries generalizing chunks with
  | nil =>
      constructor
      · intro decrypted
        cases decrypted
        exact ⟨[], .nil, .nil, rfl⟩
      · rintro ⟨plain, -, -, rfl⟩
        exact .nil
  | cons entry rest ih =>
      obtain ⟨here, others⟩ := List.forall_mem_cons.mp same
      constructor
      · intro decrypted
        cases decrypted with
        | @cons _ chunk _ _ head tail =>
            obtain ⟨cipher, stored, size, hash, opened, plainSize, index⟩ :=
              decryptLibraryChunk_eq_ok.mp head
            obtain ⟨plain, opens, sizes, rfl⟩ := (ih others).mp tail
            refine ⟨chunk.data :: plain, .cons ⟨cipher, here ▸ stored, hash, opened⟩ opens,
              .cons ⟨?_, plainSize⟩ sizes, ?_⟩
            · intro found there
              obtain rfl := Option.some.inj ((here ▸ stored).symm.trans there)
              exact size
            · simp [labelled, ← index]
      · rintro ⟨plain, opens, sizes, rfl⟩
        cases opens with
        | cons head tail =>
            cases sizes with
            | cons headSizes tailSizes =>
                obtain ⟨cipher, stored, hash, opened⟩ := head
                refine .cons (decryptLibraryChunk_eq_ok.mpr ?_)
                  ((ih others).mpr ⟨_, tail, tailSizes, rfl⟩)
                exact ⟨cipher, here.trans stored, headSizes.1 cipher stored, hash, opened,
                  headSizes.2, rfl⟩

theorem flatMap_labelled (sameLength : entries.length = plain.length) :
    (labelled entries plain).flatMap DecryptedChunk.data = plain.flatten := by
  induction entries generalizing plain with
  | nil =>
      obtain rfl := List.length_eq_zero_iff.mp sameLength.symm
      rfl
  | cons entry rest ih =>
      cases plain with
      | nil => simp at sameLength
      | cons data others => simpa [labelled] using ih (by simpa using sameLength)

/-- The sequential reconstruction succeeds exactly when the chunks open, have the declared sizes,
and their bytes in manifest order have the hash of the file. -/
theorem decryptLibraryChunksToFileSequential_eq_ok {disk : Disk} {paths : LibraryPaths}
    {manifest : Manifest}
    (same : ∀ entry ∈ manifest.chunks,
      (disk paths).chunks (.chunk entry.index) = store entry.index) {bytes : Bytes} :
    decryptLibraryChunksToFileSequential prims disk paths manifest fileKey = (bytes, .ok ()) ↔
      ∃ plain, Opens prims manifest.fileId fileKey store manifest.chunks plain ∧
        SizesRight store manifest.chunks plain ∧
        hashFileId prims plain.flatten = manifest.fileId ∧ bytes = plain.flatten := by
  unfold decryptLibraryChunksToFileSequential
  constructor
  · intro succeeded
    split at succeeded
    · simp at succeeded
    · rename_i written wrote
      obtain ⟨rfl, finalized⟩ : written = bytes ∧ _ := by simpa using succeeded
      obtain ⟨chunks, decrypted, rfl⟩ := writeDecrypted_eq_ok.mp wrote
      obtain ⟨plain, opens, sizes, rfl⟩ := (forall₂_decryptLibraryChunk same).mp decrypted
      have flat := flatMap_labelled opens.length_eq
      rw [List.nil_append, flat] at finalized ⊢
      exact ⟨plain, opens, sizes, finalizeStreamedOutput_eq_ok.mp finalized, rfl⟩
  · rintro ⟨plain, opens, sizes, hash, rfl⟩
    have decrypted := (forall₂_decryptLibraryChunk same).mpr ⟨plain, opens, sizes, rfl⟩
    have wrote := (@writeDecrypted_eq_ok _ _ [] plain.flatten).mpr
      ⟨_, decrypted, by rw [List.nil_append, flatMap_labelled opens.length_eq]⟩
    rw [wrote]
    simp only [finalizeStreamedOutput_eq_ok.mpr hash]

end

/-! ## Where the two agree -/

/-- The plaintexts do not tell the two ways apart: they have the declared sizes and are the same in
both orders, or neither way accepts them. -/
def Indifferent (prims : Primitives) (manifest : Manifest) (store : UInt32 → Option Bytes)
    (plain : List Bytes) : Prop :=
  (SizesRight store manifest.chunks plain ∧
      joinChunks (labelled manifest.chunks plain) = plain.flatten) ∨
    (hashFileId prims (joinChunks (labelled manifest.chunks plain)) ≠ manifest.fileId ∧
      ¬(SizesRight store manifest.chunks plain ∧
        hashFileId prims plain.flatten = manifest.fileId))

/-- For the same chunks in memory and in a library, the two reconstructions have the same outcome
and the same bytes exactly when the chunks do not all open, or their plaintexts do not tell the two
ways apart. -/
theorem reconstructions_agree_iff (prims : Primitives) (disk : Disk) (paths : LibraryPaths)
    (manifest : Manifest) (fileKey : SymmetricKey) (chunks : TreeMap UInt32 EncryptedChunk)
    (same : ∀ entry ∈ manifest.chunks,
      (disk paths).chunks (.chunk entry.index) = bytesAt chunks entry.index) :
    (∀ bytes, decryptToBytes prims manifest chunks fileKey = .ok bytes ↔
      decryptLibraryChunksToFileSequential prims disk paths manifest fileKey = (bytes, .ok ())) ↔
      ∀ plain, Opens prims manifest.fileId fileKey (bytesAt chunks) manifest.chunks plain →
        Indifferent prims manifest (bytesAt chunks) plain := by
  simp only [decryptToBytes_eq_ok, decryptLibraryChunksToFileSequential_eq_ok same]
  constructor
  · intro agree plain opens
    by_cases memory : hashFileId prims (joinChunks (labelled manifest.chunks plain)) =
        manifest.fileId
    · obtain ⟨other, others, sizes, -, joined⟩ :=
        (agree (joinChunks (labelled manifest.chunks plain))).mp ⟨plain, opens, memory, rfl⟩
      obtain rfl := opens.unique others
      exact .inl ⟨sizes, joined⟩
    · refine .inr ⟨memory, fun library => ?_⟩
      obtain ⟨other, others, hash, -⟩ :=
        (agree plain.flatten).mpr ⟨plain, opens, library.1, library.2, rfl⟩
      obtain rfl := opens.unique others
      exact memory hash
  · intro indifferent bytes
    constructor
    · rintro ⟨plain, opens, hash, rfl⟩
      obtain ⟨sizes, joined⟩ | ⟨rejected, -⟩ := indifferent plain opens
      · exact ⟨plain, opens, sizes, joined ▸ hash, joined⟩
      · exact absurd hash rejected
    · rintro ⟨plain, opens, sizes, hash, rfl⟩
      obtain ⟨-, joined⟩ | ⟨-, rejected⟩ := indifferent plain opens
      · exact ⟨plain, opens, joined.symm ▸ hash, joined.symm⟩
      · exact absurd ⟨sizes, hash⟩ rejected

/-- Two one-byte chunks in memory. -/
def twoChunks : TreeMap UInt32 EncryptedChunk :=
  ((∅ : TreeMap UInt32 EncryptedChunk).insert 0 { index := 0, data := oneByteChunk 0 }).insert 1
    { index := 1, data := oneByteChunk 1 }

/-- A share of two chunks in order comes out the same both ways. -/
theorem reconstructions_agree_in_order :
    decryptToBytes transparentPrimitives (oneByteManifest [0, 1]) twoChunks sampleKey =
        .ok [0, 1] ∧
      decryptLibraryChunksToFileSequential transparentPrimitives oneByteDisk samplePaths
        (oneByteManifest [0, 1]) sampleKey = ([0, 1], .ok ()) := by
  have same : ∀ entry ∈ (oneByteManifest [0, 1]).chunks,
      (oneByteDisk samplePaths).chunks (.chunk entry.index) = bytesAt twoChunks entry.index := by
    intro entry member
    obtain rfl | rfl : entry = oneByteEntry 0 ∨ entry = oneByteEntry 1 := by
      simpa [oneByteManifest] using member
    · rfl
    · rfl
  have opened : Opens transparentPrimitives (oneByteManifest [0, 1]).fileId sampleKey
      (bytesAt twoChunks) (oneByteManifest [0, 1]).chunks [[0], [1]] :=
    .cons ⟨oneByteChunk 0, rfl, rfl, rfl⟩ (.cons ⟨oneByteChunk 1, rfl, rfl, rfl⟩ .nil)
  have decrypts : decryptToBytes transparentPrimitives (oneByteManifest [0, 1]) twoChunks
      sampleKey = .ok [0, 1] := by decide +kernel
  refine ⟨decrypts, ((reconstructions_agree_iff _ _ _ _ _ _ same).mpr ?_ [0, 1]).mp decrypts⟩
  intro plain opens
  obtain rfl := opens.unique opened
  refine .inl ⟨.cons ⟨?_, rfl⟩ (.cons ⟨?_, rfl⟩ .nil), by decide +kernel⟩
  · rintro cipher ⟨rfl⟩
    rfl
  · rintro cipher ⟨rfl⟩
    rfl

/-- A manifest that lists its chunks in the wrong order, with the hash of the right one. -/
def reorderedManifest : Manifest :=
  { oneByteManifest [1, 0] with fileId := hashFileId transparentPrimitives [0, 1] }

/-- Such a manifest downloads into memory but not into a library. -/
theorem reconstructions_disagree :
    (∀ entry ∈ reorderedManifest.chunks,
      (oneByteDisk samplePaths).chunks (.chunk entry.index) = bytesAt twoChunks entry.index) ∧
      decryptToBytes transparentPrimitives reorderedManifest twoChunks sampleKey = .ok [0, 1] ∧
      decryptLibraryChunksToFileSequential transparentPrimitives oneByteDisk samplePaths
        reorderedManifest sampleKey = ([1, 0], .error (.file .finalHashMismatch)) := by
  refine ⟨?_, by decide +kernel, rfl⟩
  intro entry member
  obtain rfl | rfl : entry = oneByteEntry 1 ∨ entry = oneByteEntry 0 := by
    simpa [reorderedManifest, oneByteManifest] using member
  · rfl
  · rfl

/-! ## What is left of the output file -/

/-- The results that reach the consumer of a parallel reconstruction, in the order they arrive. -/
def arrivals {workerCount : Nat}
    (steps : List (Reconstruction workerCount × ReconstructEvent workerCount ×
      Reconstruction workerCount)) : List DecryptResult :=
  steps.filterMap fun
    | (state, .receive _, _) => state.channel.head?
    | _ => none

/-- What the consumer makes of the results that arrive. -/
def consumeResults (expectedOrder : List UInt32) (results : List DecryptResult) : WriteCursor :=
  results.foldl (fun cursor result => (consumeResult expectedOrder none cursor result).1)
    { nextPosition := 0, pending := ∅, firstError := none, written := [] }

section

variable {prims : Primitives} {disk : Disk} {paths : LibraryPaths} {manifest : Manifest}
  {fileKey : SymmetricKey} {workerCount : Nat}

/-- The consumer has made of the arrivals what it should, as long as its writes succeed. -/
def Reconstruction.Follows (manifest : Manifest) (state : Reconstruction workerCount)
    (steps : List (Reconstruction workerCount × ReconstructEvent workerCount ×
      Reconstruction workerCount)) : Prop :=
  (∀ step ∈ steps, WritesSucceed step.2.1) →
    match state.consumer with
    | .receiving _ cursor => cursor = consumeResults manifest.indices (arrivals steps)
    | .joining _ cursor =>
        cursor.written = (consumeResults manifest.indices (arrivals steps)).written
    | .unwinding _ _ => False
    | .returned written _ =>
        written = (consumeResults manifest.indices (arrivals steps)).written

end

end Etle
