import Etle.State.OneByteShare
import Etle.Transfer.Reconstruct
import Etle.Transfer.SeedAdd

/-!
# What has been seeded can be decrypted

The staged files of a pipeline that returns decrypt, in the order of the metadata, to the reads of
the input.  After they have been moved into the library they decrypt there to the same bytes.
Whether these bytes are the file that the descriptor names depends on the file alone: its hash, its
size and its chunks come from three passes, and nothing compares them.
-/

namespace Etle

/-- A file holds a chunk: it has the size and the hash of the entry, and it decrypts to as many
bytes as the entry says. -/
structure HoldsChunk (prims : Primitives) (fileId : FileId) (fileKey : SymmetricKey)
    (entry : ChunkMeta) (plain cipher : Bytes) : Prop where
  encryptedSize : UInt64.ofNat cipher.length = entry.encryptedSize
  hash : hashChunk prims cipher = entry.blake3Hash
  opens : decryptChunk prims fileKey entry.nonce cipher
    (buildChunkAad fileId entry.index entry.plainSize) = .ok plain
  plainSize : UInt64.ofNat plain.length = entry.plainSize

/-- The reads go through a whole file: each returns between one byte and a full buffer, and the
last one is followed by the end of the file. -/
structure InputScript.ReadsWhole (script : InputScript) (chunkSize : UInt64) (content : Bytes) :
    Prop where
  untilEnd : script.failure = none
  buffers : ∀ data ∈ script.reads, 0 < data.length ∧ data.length ≤ chunkSize.toNat
  all : script.reads.flatten = content

section

variable {prims : Primitives} {fileId : FileId} {fileKey : SymmetricKey}

theorem holdsChunk_of_encryptSeedChunk (correct : prims.AeadCorrect) {nonce : Nonce}
    {chunk : SeedPlainChunk} {entry : ChunkMeta} {ciphertext : Bytes}
    (sealed : encryptSeedChunk prims fileId fileKey nonce chunk = .ok { entry, ciphertext }) :
    HoldsChunk prims fileId fileKey entry chunk.data ciphertext := by
  simp only [encryptSeedChunk] at sealed
  split at sealed
  · cases sealed
  · rename_i cipher encrypted
    obtain ⟨rfl, rfl⟩ := by simpa using sealed
    exact ⟨rfl, rfl, decryptChunk_of_encryptChunk correct encrypted, rfl⟩

/-- A file of the library that holds a chunk is decrypted. -/
theorem HoldsChunk.decryptLibraryChunk {disk : Disk} {paths : LibraryPaths} {entry : ChunkMeta}
    {plain cipher : Bytes} (holds : HoldsChunk prims fileId fileKey entry plain cipher)
    (stored : (disk paths).chunks (.chunk entry.index) = some cipher) :
    decryptLibraryChunk prims disk paths fileId fileKey entry =
      .ok { index := entry.index, data := plain } :=
  decryptLibraryChunk_eq_ok.mpr
    ⟨cipher, stored, holds.encryptedSize, holds.hash, holds.opens, holds.plainSize, rfl⟩

/-- The sizes that entries record add up to the bytes they describe. -/
theorem sum_plainSize {entries : List ChunkMeta} {plains : List Bytes}
    (sizes : List.Forall₂ (fun entry plain => UInt64.ofNat plain.length = entry.plainSize)
      entries plains) (bounded : ∀ plain ∈ plains, plain.length < 2 ^ 64) :
    (entries.map fun entry => entry.plainSize.toNat).sum = plains.flatten.length := by
  induction sizes with
  | nil => rfl
  | @cons entry plain entries plains size _ ih =>
      have here : entry.plainSize.toNat = plain.length := by
        rw [← size, UInt64.toNat_ofNat', Nat.mod_eq_of_lt (bounded plain List.mem_cons_self)]
      have later := ih fun other member => bounded other (List.mem_cons_of_mem _ member)
      rw [List.map_cons, List.sum_cons, List.flatten_cons, List.length_append, here, later]

/-! ## The staged files -/

variable {workerCount : Nat} {script : InputScript}

/-- A pipeline that has returned has staged its reads one by one. -/
theorem staged_of_returned (correct : prims.AeadCorrect) (staffed : 0 < workerCount)
    {state : SeedPipeline workerCount} {metas : List ChunkMeta}
    (reach : (encryptFileToStagingParallel prims fileId fileKey workerCount).Reaches
      (.initial script workerCount) state)
    (returned : state.reader = .returned (.ok metas)) :
    List.Forall₂ (fun entry plain => ∃ cipher, state.staged entry.index = some cipher ∧
      HoldsChunk prims fileId fileKey entry plain cipher) metas script.reads := by
  obtain ⟨length, describes⟩ := returned_describes_reads staffed reach returned
  refine List.forall₂_iff_get.mpr ⟨length, fun position in_metas in_reads => ?_⟩
  obtain ⟨-, data, nonce, cipher, read, sealed, staged⟩ :=
    describes position _ (List.getElem?_eq_getElem in_metas)
  obtain rfl : script.reads[position] = data := by
    simpa [List.getElem?_eq_getElem in_reads] using read
  exact ⟨cipher, staged, holdsChunk_of_encryptSeedChunk correct sealed⟩

/-- The pipeline returns metadata numbered in order whose plain sizes add up to the file, and the
staged files decrypt in this order to the file. -/
theorem seedPipeline_roundTrip (correct : prims.AeadCorrect) (staffed : 0 < workerCount)
    {chunkSize : UInt64} {content : Bytes} (whole : script.ReadsWhole chunkSize content)
    {state : SeedPipeline workerCount} {metas : List ChunkMeta}
    (reach : (encryptFileToStagingParallel prims fileId fileKey workerCount).Reaches
      (.initial script workerCount) state)
    (returned : state.reader = .returned (.ok metas)) :
    metas.map (fun entry => entry.index.toNat) = List.range metas.length ∧
    (metas.map fun entry => entry.plainSize.toNat).sum = content.length ∧
    ∃ plains, List.Forall₂ (fun entry plain => ∃ cipher, state.staged entry.index = some cipher ∧
        HoldsChunk prims fileId fileKey entry plain cipher) metas plains ∧
      plains.flatten = content := by
  obtain ⟨-, describes⟩ := returned_describes_reads staffed reach returned
  have staged := staged_of_returned correct staffed reach returned
  have numbered : metas.map (fun entry => entry.index.toNat) = List.range metas.length := by
    apply List.ext_getElem (by simp)
    intro position in_metas _
    have found := List.getElem?_eq_getElem (by simpa using in_metas : position < metas.length)
    simp [(describes position _ found).1]
  have bounded : ∀ plain ∈ script.reads, plain.length < 2 ^ 64 := fun plain member =>
    Nat.lt_of_le_of_lt (whole.buffers plain member).2 chunkSize.toNat_lt
  have sizes := sum_plainSize (staged.imp fun entry plain found => by
    obtain ⟨cipher, -, holds⟩ := found
    exact holds.plainSize) bounded
  rw [whole.all] at sizes
  exact ⟨numbered, sizes, script.reads, staged, whole.all⟩

/-- One byte that is read at once goes through a single worker. -/
theorem seedPipeline_roundTrip_one_read :
    ∃ (state : SeedPipeline 1) (metas : List ChunkMeta),
      (encryptFileToStagingParallel transparentPrimitives (hashFileId transparentPrimitives [7])
        sampleKey 1).Reaches (.initial (oneReadInput [7]).script 1) state ∧
      state.reader = .returned (.ok metas) ∧
      (metas.map fun entry => entry.plainSize.toNat).sum = 1 ∧
      ∃ plains, List.Forall₂ (fun entry plain => ∃ cipher, state.staged entry.index = some cipher ∧
          HoldsChunk transparentPrimitives (hashFileId transparentPrimitives [7]) sampleKey entry
            plain cipher) metas plains ∧
        plains.flatten = [7] := by
  obtain ⟨final, run, returned, -⟩ :=
    run_oneReadSchedule (hashFileId transparentPrimitives [7]) sampleKey [7]
  have whole : (oneReadInput [7]).script.ReadsWhole 1 [7] := ⟨rfl, by simp [oneReadInput], rfl⟩
  obtain ⟨-, sizes, decrypted⟩ :=
    seedPipeline_roundTrip aeadCorrect_transparent (by decide) whole ⟨_, run⟩ returned
  exact ⟨final, _, ⟨_, run⟩, returned, sizes, decrypted⟩

/-! ## The files of the library -/

variable {paths : LibraryPaths} {staged : UInt32 → Option Bytes} {entries : List ChunkMeta}
  {before after : Disk}

/-- Moving chunks leaves the other chunk files alone. -/
theorem others_of_moveChunks {value : Unit}
    (moved : (moveChunks paths staged entries).run before = .ok value after) {index : UInt32}
    (other : ∀ entry ∈ entries, entry.index ≠ index) :
    (after paths).chunks (.chunk index) = (before paths).chunks (.chunk index) := by
  induction entries generalizing staged before with
  | nil =>
      obtain rfl : before = after := by simpa [moveChunks] using moved
      rfl
  | cons entry rest ih =>
      obtain ⟨data, -, later⟩ := moveChunks_cons_ok moved
      rw [ih later fun wanted member => other wanted (List.mem_cons_of_mem _ member)]
      have apart : index ≠ entry.index := (other entry List.mem_cons_self).symm
      simp [ShareDir.withChunk, apart]

/-- Each staged chunk ends up as the chunk file of its index. -/
theorem chunks_of_moveChunks {value : Unit}
    (moved : (moveChunks paths staged entries).run before = .ok value after)
    (distinct : (entries.map ChunkMeta.index).Nodup) :
    ∀ entry ∈ entries, (after paths).chunks (.chunk entry.index) = staged entry.index := by
  induction entries generalizing staged before with
  | nil => simp
  | cons entry rest ih =>
      rw [List.map_cons, List.nodup_cons] at distinct
      have apart : ∀ later ∈ rest, later.index ≠ entry.index := fun later member same =>
        distinct.1 (same ▸ List.mem_map_of_mem member)
      obtain ⟨data, found, later⟩ := moveChunks_cons_ok moved
      intro wanted member
      obtain rfl | in_rest := List.mem_cons.mp member
      · rw [others_of_moveChunks later apart, found]
        simp [ShareDir.withChunk]
      · rw [ih later distinct.2 wanted in_rest, Function.update_of_ne (apart wanted in_rest)]

variable {input : SeedInput} {chunkSize : Nat} {libraryRoot : PathBuf} {schedule : SeedSchedule}
  {descriptor : EtleDescriptor}

/-- Storing an encrypted file makes its staged chunks the chunk files of the share. -/
theorem chunks_of_storeSeeded
    (stored : (storeSeeded prims input fileKey chunkSize libraryRoot entries staged).run before =
      .ok descriptor after) (distinct : (entries.map ChunkMeta.index).Nodup) :
    ∀ entry ∈ entries, (after { root := libraryRoot, shareId := descriptor.shareId }).chunks
      (.chunk entry.index) = staged entry.index := by
  simp only [storeSeeded, EStateM.run_bind_eq_ok, EStateM.run_zoom_eq_ok, run_libraryInit,
    EStateM.run_pure, EStateM.Result.ok.injEq] at stored
  obtain ⟨_, _, ⟨_, ⟨rfl, rfl⟩, rfl⟩, _, _, moved, rfl, rfl⟩ := stored
  exact chunks_of_moveChunks moved distinct

/-- The chunks of a seeded share decrypt in the library to the reads of the input. -/
theorem decrypted_of_addStreaming (correct : prims.AeadCorrect)
    (added : addStreaming prims input fileKey chunkSize libraryRoot schedule before =
      some (.ok descriptor after)) :
    ∃ chunkMetas, descriptor =
        descriptorFromManifest prims (seedManifest prims input chunkSize chunkMetas) ∧
      List.Forall₂ (fun entry plain => decryptLibraryChunk prims after
          { root := libraryRoot, shareId := descriptor.shareId } (hashFileId prims input.content)
          fileKey entry = .ok { index := entry.index, data := plain } ∧
        UInt64.ofNat plain.length = entry.plainSize) chunkMetas input.script.reads := by
  obtain ⟨final, chunkMetas, reach, returned, stored⟩ := addStreaming_eq_ok added
  have held := staged_of_returned correct (defaultSeedWorkerCount_pos _) reach returned
  have distinct : (chunkMetas.map ChunkMeta.index).Nodup :=
    (indices_increasing_of_returned reach returned).imp UInt32.ne_of_lt
  have files := chunks_of_storeSeeded stored distinct
  refine ⟨chunkMetas, (storeSeeded_ok stored).1, List.forall₂_iff_get.mpr ⟨held.length_eq, ?_⟩⟩
  intro position in_metas in_reads
  obtain ⟨cipher, found, holds⟩ := (List.forall₂_iff_get.mp held).2 position in_metas in_reads
  rw [← files _ (List.get_mem _ _)] at found
  exact ⟨holds.decryptLibraryChunk found, holds.plainSize⟩

end

/-! ## The file that the descriptor names -/

/-- The chunks of a share decrypt to the file that its descriptor names, and their sizes add up to
its size. -/
def Reconstructible (prims : Primitives) (disk : Disk) (paths : LibraryPaths)
    (fileKey : SymmetricKey) (descriptor : EtleDescriptor) : Prop :=
  ∃ file plains, descriptor.files[0]? = some file ∧
    List.Forall₂ (fun entry plain => decryptLibraryChunk prims disk paths file.blake3Hash fileKey
      entry = .ok { index := entry.index, data := plain }) descriptor.chunks plains ∧
    hashFileId prims plains.flatten = file.blake3Hash ∧
    (descriptor.chunks.map fun entry => entry.plainSize.toNat).sum = descriptor.totalSize.toNat

/-- The three passes over the input agree: the chunks are those of the bytes that were hashed, and
the size is theirs. -/
def SeedInput.Unchanged (input : SeedInput) : Prop :=
  input.script.reads.flatten = input.content ∧ input.size.toNat = input.content.length

/-- What entries decrypt to is determined by them. -/
theorem forall₂_unique {α β : Type} {relation : α → β → Prop}
    (functional : ∀ item first second, relation item first → relation item second →
      first = second) {items : List α} {firsts seconds : List β}
    (first : List.Forall₂ relation items firsts) (second : List.Forall₂ relation items seconds) :
    firsts = seconds := by
  induction first generalizing seconds with
  | nil =>
      cases second
      rfl
  | cons here _ ih =>
      cases second with
      | cons there later => rw [functional _ _ _ here there, ih later]

section

variable {prims : Primitives} {input : SeedInput} {fileKey : SymmetricKey} {chunkSize : Nat}
  {libraryRoot : PathBuf} {schedule : SeedSchedule} {before after : Disk}
  {descriptor : EtleDescriptor}

/-- What the descriptor of a seeded share promises is compared with the reads of the input. -/
theorem reconstructible_iff_of_added (correct : prims.AeadCorrect)
    (buffers : ∀ data ∈ input.script.reads, data.length ≤ chunkSize) (usize : chunkSize < 2 ^ 64)
    (added : addStreaming prims input fileKey chunkSize libraryRoot schedule before =
      some (.ok descriptor after)) :
    Reconstructible prims after { root := libraryRoot, shareId := descriptor.shareId } fileKey
        descriptor ↔
      hashFileId prims input.script.reads.flatten = hashFileId prims input.content ∧
        input.script.reads.flatten.length = input.size.toNat := by
  obtain ⟨chunkMetas, described, held⟩ := decrypted_of_addStreaming correct added
  have sizes := sum_plainSize (held.imp fun _ _ => And.right) fun plain member =>
    Nat.lt_of_le_of_lt (buffers plain member) usize
  have decrypted := held.imp fun _ _ => And.left
  constructor
  · rintro ⟨file, plains, first, opened, hashed, total⟩
    subst described
    obtain rfl := Option.some.inj first
    obtain rfl := forall₂_unique (fun entry first second left right => by
      simpa using left.symm.trans right) decrypted opened
    exact ⟨hashed, sizes.symm.trans total⟩
  · rintro ⟨hashed, total⟩
    rw [described] at decrypted ⊢
    exact ⟨_, input.script.reads, rfl, decrypted, hashed, sizes.trans total⟩

/-- A share that has been seeded can be reconstructed exactly when the file has not changed between
the passes over it. -/
theorem seededShare_reconstructible_iff (correct : prims.AeadCorrect)
    (collisionFree : prims.CollisionFree {input.content, input.script.reads.flatten})
    (buffers : ∀ data ∈ input.script.reads, data.length ≤ chunkSize) (usize : chunkSize < 2 ^ 64)
    (added : addStreaming prims input fileKey chunkSize libraryRoot schedule before =
      some (.ok descriptor after)) :
    Reconstructible prims after { root := libraryRoot, shareId := descriptor.shareId } fileKey
      descriptor ↔ input.Unchanged := by
  rw [reconstructible_iff_of_added correct buffers usize added]
  constructor
  · rintro ⟨hashed, total⟩
    have content : input.script.reads.flatten = input.content :=
      collisionFree (by simp) (by simp) (congrArg FileId.bytes hashed)
    exact ⟨content, by rw [← content, total]⟩
  · rintro ⟨content, size⟩
    exact ⟨by rw [content], by rw [content, size]⟩

end

/-- A file that stays the same is seeded as a share that can be reconstructed. -/
theorem seededShare_reconstructible_one_read :
    ∃ descriptor after,
      addStreaming transparentPrimitives (oneReadInput [7]) sampleKey 1 ["library"]
        oneReadSchedule (fun _ => .absent) = some (.ok descriptor after) ∧
      Reconstructible transparentPrimitives after
        { root := ["library"], shareId := descriptor.shareId } sampleKey descriptor := by
  obtain ⟨descriptor, after, added⟩ := addStreaming_of_oneRead (oneReadInput [7]) [7] rfl sampleKey
    (by decide : 1 ≠ 0) ["library"] fun _ => .absent
  refine ⟨descriptor, after, added, (seededShare_reconstructible_iff aeadCorrect_transparent ?_ ?_
    (by decide) added).mpr ⟨rfl, rfl⟩⟩
  · exact (noSecondPreimage_transparent (by decide)).collisionFree _
  · simp [oneReadInput]

/-- A file of one byte that has grown to two when its chunks are read. -/
def grownInput : SeedInput :=
  { oneReadInput [7] with script := { reads := [[7, 8]], failure := none } }

/-- A file that grows after it has been hashed is seeded as a share that cannot be
reconstructed. -/
theorem seededShare_not_reconstructible :
    ∃ descriptor after, addStreaming transparentPrimitives grownInput sampleKey 2 ["library"]
        oneReadSchedule (fun _ => .absent) = some (.ok descriptor after) ∧
      ¬Reconstructible transparentPrimitives after
        { root := ["library"], shareId := descriptor.shareId } sampleKey descriptor := by
  obtain ⟨descriptor, after, added⟩ := addStreaming_of_oneRead grownInput [7, 8] rfl sampleKey
    (by decide : 2 ≠ 0) ["library"] fun _ => .absent
  refine ⟨descriptor, after, added, fun reconstructible => ?_⟩
  obtain ⟨hashed, -⟩ := (reconstructible_iff_of_added aeadCorrect_transparent
    (by simp [grownInput, oneReadInput]) (by decide) added).mp reconstructible
  exact absurd hashed (by decide)

end Etle
