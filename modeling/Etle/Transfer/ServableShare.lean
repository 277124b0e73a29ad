import Etle.Protocol.CodecStreams
import Etle.State.OneByteShare
import Etle.Transfer.SeedAdd
import Etle.Transfer.ServeSession

/-!
# Which seeded shares can be served

Seeding refuses an empty chunk size and nothing else, while every frame of a session is bounded.  A
chunk must fit a frame together with its tag and its header, and so must the manifest, which grows
with the number of chunks.  These two bounds on the input are all that serving needs.
-/

namespace Etle

/-- Encryption appends an authentication tag of 16 bytes. -/
def Primitives.AppendsTag (prims : Primitives) : Prop :=
  ∀ key nonce plain aad cipher, prims.aeadEncrypt key nonce plain aad = some cipher →
    cipher.length = plain.length + 16

open ByteCodec Codec

/-- A message can be sent as far as its size is concerned. -/
def FrameFits (bincode : Bincode WireMessage) (message : WireMessage) : Prop :=
  ∃ payload, bincode.encodeToVec message = some payload ∧
    validateFrameLen payload.length = .ok ()

/-- A session that loads the share can send every frame it offers: the manifest, the announcement
and a raw frame for each chunk. -/
def Servable (bincode : Bincode WireMessage) (prims : Primitives) (disk : Disk)
    (paths : LibraryPaths) : Prop :=
  ∃ loaded, loadShare prims disk paths = .ok loaded ∧
    FrameFits bincode (.manifest loaded.manifest) ∧
    FrameFits bincode (.have loaded.availableChunks) ∧
    ∀ entry ∈ loaded.descriptor.chunks,
      validateFrameLen (Codec.rawChunkHeaderSize + entry.encryptedSize.toNat) = .ok ()

/-- The size of the entry that a read with the given number will have in the manifest. -/
def readEntrySize (position : Nat) (data : Bytes) : Nat :=
  varintSize position + (varintSize data.length + (varintSize (data.length + 16) + (24 + 32)))

/-- The size of the manifest of an input. -/
def SeedInput.manifestSize (input : SeedInput) (chunkSize : Nat) : Nat :=
  32 + (listSize (fun _ => 1) (utf8 (manifestFileName input.path)) +
    (varintSize input.size.toNat +
      (varintSize (UInt64.ofNat chunkSize).toNat +
        (varintSize input.script.reads.length +
          (input.script.reads.mapIdx readEntrySize).sum))))

/-- Every read of the input fits a frame with its tag and header, and so does the manifest behind
its variant. -/
def SeedInput.FitsFrames (input : SeedInput) (chunkSize : Nat) : Prop :=
  (∀ data ∈ input.script.reads, Codec.rawChunkHeaderSize + (data.length + 16) ≤ maxFrameSize) ∧
    1 + input.manifestSize chunkSize ≤ maxFrameSize

section

variable {bincode : Bincode WireMessage} {prims : Primitives} {input : SeedInput}
  {fileKey : SymmetricKey} {chunkSize : Nat} {libraryRoot : PathBuf}

theorem frameFits_manifest_iff (sizes : bincode.StandardSizes) (manifest : Manifest) :
    FrameFits bincode (.manifest manifest) ↔ 1 + manifestSize manifest ≤ maxFrameSize := by
  constructor
  · rintro ⟨payload, encoded, valid⟩
    rw [← sizes.manifest manifest payload encoded]
    exact (validateFrameLen_eq_ok.mp valid).2
  · intro small
    have bound : maxFrameSize < 2 ^ 64 := by decide
    obtain ⟨payload, encoded⟩ := sizes.encodes_manifest manifest (by omega)
    have length := sizes.manifest manifest payload encoded
    exact ⟨payload, encoded, validateFrameLen_eq_ok.mpr (by omega)⟩

/-- Any of the chunks of a manifest can be announced when the manifest can be sent. -/
theorem frameFits_have (sizes : bincode.StandardSizes) {manifest : Manifest}
    {entries : List ChunkMeta} (within : entries.Sublist manifest.chunks)
    (small : 1 + manifestSize manifest ≤ maxFrameSize) :
    FrameFits bincode (.have (entries.map ChunkMeta.index)) := by
  have smaller : indicesSize (entries.map ChunkMeta.index) ≤ manifestSize manifest := by
    have count : varintSize entries.length ≤ varintSize manifest.chunks.length :=
      varintSize_mono within.length_le
    have each : (entries.map fun entry => varintSize entry.index.toNat).sum ≤
        (manifest.chunks.map chunkMetaSize).sum := by
      calc (entries.map fun entry => varintSize entry.index.toNat).sum
          ≤ (entries.map chunkMetaSize).sum :=
            List.sum_le_sum fun entry _ => by unfold chunkMetaSize; omega
        _ ≤ (manifest.chunks.map chunkMetaSize).sum :=
            (within.map chunkMetaSize).sum_le_sum fun _ _ => Nat.zero_le _
    simp only [indicesSize, listSize, manifestSize, List.length_map, List.map_map,
      Function.comp_def] at count each ⊢
    omega
  have bound : maxFrameSize < 2 ^ 64 := by decide
  obtain ⟨payload, encoded⟩ := sizes.encodes_have (entries.map ChunkMeta.index) (by omega)
  have length := sizes.have_ _ payload encoded
  exact ⟨payload, encoded, validateFrameLen_eq_ok.mpr (by omega)⟩

/-- What a session finds of a share that was just seeded: metadata that describe the reads. -/
theorem loadShare_of_addStreaming {schedule : SeedSchedule} {before after : Disk}
    {descriptor : EtleDescriptor}
    (added : addStreaming prims input fileKey chunkSize libraryRoot schedule before =
      some (.ok descriptor after)) :
    ∃ chunkMetas, descriptor =
        descriptorFromManifest prims (seedManifest prims input chunkSize chunkMetas) ∧
      chunkMetas.length = input.script.reads.length ∧
      (∀ position entry, chunkMetas[position]? = some entry → entry.index.toNat = position ∧
        ∃ data nonce ciphertext, input.script.reads[position]? = some data ∧
          encryptSeedChunk prims (hashFileId prims input.content) fileKey nonce
            { index := entry.index, data } = .ok { entry, ciphertext }) ∧
      loadShare prims after { root := libraryRoot, shareId := descriptor.shareId } = .ok {
        descriptor, fileKey, manifest := seedManifest prims input chunkSize chunkMetas
        availableChunks := availableChunkIndexes prims after
          { root := libraryRoot, shareId := descriptor.shareId } descriptor } := by
  obtain ⟨final, chunkMetas, reach, returned, stored⟩ := addStreaming_eq_ok added
  obtain ⟨described, descriptor_stored, secret_stored⟩ := storeSeeded_ok stored
  obtain ⟨length, describes⟩ :=
    returned_describes_reads (defaultSeedWorkerCount_pos _) reach returned
  refine ⟨chunkMetas, described, length, ?_, ?_⟩
  · intro position entry found
    obtain ⟨index_eq, data, nonce, ciphertext, read, sealed, -⟩ := describes position entry found
    exact ⟨index_eq, data, nonce, ciphertext, read, sealed⟩
  · subst described
    exact loadShare_of_values descriptor_stored secret_stored rfl

/-- The sizes an entry records are those of the read it was made from. -/
theorem sizes_of_encryptSeedChunk (tagged : prims.AppendsTag) {fileId : FileId} {nonce : Nonce}
    {chunk : SeedPlainChunk} {entry : ChunkMeta} {ciphertext : Bytes}
    (sealed : encryptSeedChunk prims fileId fileKey nonce chunk = .ok { entry, ciphertext }) :
    entry.plainSize = UInt64.ofNat chunk.data.length ∧
      entry.encryptedSize = UInt64.ofNat (chunk.data.length + 16) := by
  simp only [encryptSeedChunk, encryptChunk] at sealed
  split at sealed
  · cases sealed
  · rename_i cipher encrypted
    split at encrypted
    · rename_i result aead
      obtain rfl : result = cipher := by simpa using encrypted
      obtain ⟨rfl, rfl⟩ := by simpa using sealed
      exact ⟨rfl, by rw [tagged _ _ _ _ _ aead]⟩
    · cases encrypted

section Sizes

variable {chunkMetas : List ChunkMeta} (tagged : prims.AppendsTag)
  (buffers : ∀ data ∈ input.script.reads, data.length < 2 ^ 63)
  (length : chunkMetas.length = input.script.reads.length)
  (describes : ∀ position entry, chunkMetas[position]? = some entry →
    entry.index.toNat = position ∧ ∃ data nonce ciphertext,
      input.script.reads[position]? = some data ∧
        encryptSeedChunk prims (hashFileId prims input.content) fileKey nonce
          { index := entry.index, data } = .ok { entry, ciphertext })

include tagged buffers describes

theorem sizes_of_entry {position : Nat} {entry : ChunkMeta}
    (found : chunkMetas[position]? = some entry) :
    ∃ data, input.script.reads[position]? = some data ∧
      entry.encryptedSize.toNat = data.length + 16 ∧
      chunkMetaSize entry = readEntrySize position data := by
  obtain ⟨index_eq, data, nonce, ciphertext, read, sealed⟩ := describes position entry found
  obtain ⟨plain, encrypted⟩ := sizes_of_encryptSeedChunk tagged sealed
  have small := buffers data (List.mem_of_getElem? read)
  have plain_eq : entry.plainSize.toNat = data.length := by
    rw [plain, UInt64.toNat_ofNat', Nat.mod_eq_of_lt (by simp only; omega)]
  have encrypted_eq : entry.encryptedSize.toNat = data.length + 16 := by
    rw [encrypted, UInt64.toNat_ofNat', Nat.mod_eq_of_lt (by simp only; omega)]
  exact ⟨data, read, encrypted_eq, by
    rw [chunkMetaSize, readEntrySize, index_eq, plain_eq, encrypted_eq]⟩

include length

theorem manifestSize_seedManifest :
    manifestSize (seedManifest prims input chunkSize chunkMetas) =
      input.manifestSize chunkSize := by
  have entries : chunkMetas.map chunkMetaSize = input.script.reads.mapIdx readEntrySize := by
    apply List.ext_getElem?
    intro position
    rw [List.getElem?_map, List.getElem?_mapIdx]
    cases found : chunkMetas[position]? with
    | none =>
        have beyond := List.getElem?_eq_none_iff.mp found
        rw [List.getElem?_eq_none_iff.mpr (by omega : input.script.reads.length ≤ position)]
        rfl
    | some entry =>
        obtain ⟨data, read, -, size⟩ := sizes_of_entry tagged buffers describes found
        rw [read, Option.map_some, Option.map_some, size]
  simp only [manifestSize, SeedInput.manifestSize, seedManifest, listSize, entries, length]

/-- The chunks fit their frames exactly when the reads do. -/
theorem chunkFrames_valid_iff :
    (∀ entry ∈ chunkMetas,
      validateFrameLen (Codec.rawChunkHeaderSize + entry.encryptedSize.toNat) = .ok ()) ↔
      ∀ data ∈ input.script.reads,
        Codec.rawChunkHeaderSize + (data.length + 16) ≤ maxFrameSize := by
  constructor
  · intro valid data member
    obtain ⟨position, read⟩ := List.mem_iff_getElem?.mp member
    have within : position < chunkMetas.length := by
      rw [length]
      exact (List.getElem?_eq_some_iff.mp read).1
    have found := List.getElem?_eq_getElem within
    obtain ⟨same, read_again, size, -⟩ := sizes_of_entry tagged buffers describes found
    obtain rfl : same = data := by simpa [read] using read_again.symm
    have checked := valid _ (List.mem_of_getElem? found)
    rw [size] at checked
    exact (validateFrameLen_eq_ok.mp checked).2
  · intro fit entry member
    obtain ⟨position, found⟩ := List.mem_iff_getElem?.mp member
    obtain ⟨data, read, size, -⟩ := sizes_of_entry tagged buffers describes found
    rw [size]
    exact validateFrameLen_eq_ok.mpr
      ⟨by unfold Codec.rawChunkHeaderSize; omega, fit data (List.mem_of_getElem? read)⟩

end Sizes

/-- A seeded share can be served when its input fits the frames. -/
theorem servable_of_fitsFrames (sizes : bincode.StandardSizes) (tagged : prims.AppendsTag)
    (buffers : ∀ data ∈ input.script.reads, data.length < 2 ^ 63) {schedule : SeedSchedule}
    {before after : Disk} {descriptor : EtleDescriptor}
    (added : addStreaming prims input fileKey chunkSize libraryRoot schedule before =
      some (.ok descriptor after)) (fits : input.FitsFrames chunkSize) :
    Servable bincode prims after { root := libraryRoot, shareId := descriptor.shareId } := by
  obtain ⟨chunkMetas, rfl, length, describes, loads⟩ := loadShare_of_addStreaming added
  have size : manifestSize (seedManifest prims input chunkSize chunkMetas) =
      input.manifestSize chunkSize := manifestSize_seedManifest tagged buffers length describes
  have small : 1 + manifestSize (seedManifest prims input chunkSize chunkMetas) ≤ maxFrameSize := by
    rw [size]
    exact fits.2
  refine ⟨_, loads, (frameFits_manifest_iff sizes _).mpr small, ?_,
    (chunkFrames_valid_iff tagged buffers length describes).mpr fits.1⟩
  rw [availableChunkIndexes_eq]
  exact frameFits_have sizes List.filter_sublist small

/-- The input of a seeded share that can be served fits the frames. -/
theorem fitsFrames_of_servable (sizes : bincode.StandardSizes) (tagged : prims.AppendsTag)
    (buffers : ∀ data ∈ input.script.reads, data.length < 2 ^ 63) {schedule : SeedSchedule}
    {before after : Disk} {descriptor : EtleDescriptor}
    (added : addStreaming prims input fileKey chunkSize libraryRoot schedule before =
      some (.ok descriptor after))
    (servable : Servable bincode prims after
      { root := libraryRoot, shareId := descriptor.shareId }) :
    input.FitsFrames chunkSize := by
  obtain ⟨chunkMetas, rfl, length, describes, loads⟩ := loadShare_of_addStreaming added
  obtain ⟨loaded, same, manifest_fits, -, chunks_fit⟩ := servable
  obtain rfl := Except.ok.inj (loads.symm.trans same)
  refine ⟨(chunkFrames_valid_iff tagged buffers length describes).mp chunks_fit, ?_⟩
  rw [← @manifestSize_seedManifest prims input fileKey chunkSize chunkMetas tagged buffers length
    describes]
  exact (frameFits_manifest_iff sizes _).mp manifest_fits

/-- A share that was seeded can be served exactly when every read of its input and its manifest fit
a frame. -/
theorem seededShare_servable_iff (sizes : bincode.StandardSizes) (tagged : prims.AppendsTag)
    (buffers : ∀ data ∈ input.script.reads, data.length < 2 ^ 63) {schedule : SeedSchedule}
    {before after : Disk} {descriptor : EtleDescriptor}
    (added : addStreaming prims input fileKey chunkSize libraryRoot schedule before =
      some (.ok descriptor after)) :
    Servable bincode prims after { root := libraryRoot, shareId := descriptor.shareId } ↔
      input.FitsFrames chunkSize :=
  ⟨fitsFrames_of_servable sizes tagged buffers added,
    servable_of_fitsFrames sizes tagged buffers added⟩

end

theorem appendsTag_transparent : transparentPrimitives.AppendsTag := by
  intro key nonce plain aad cipher encrypted
  obtain rfl : plain ++ List.replicate aeadTagLength 0 = cipher := by
    simpa [transparentPrimitives] using encrypted
  simp [aeadTagLength]

/-- A file of one byte can be served after it was seeded. -/
theorem seededShare_servable_one_byte :
    ∃ descriptor after, addStreaming transparentPrimitives (oneReadInput [7]) sampleKey 1
        ["library"] oneReadSchedule (fun _ => .absent) = some (.ok descriptor after) ∧
      Servable wireBincode transparentPrimitives after
        { root := ["library"], shareId := descriptor.shareId } := by
  obtain ⟨descriptor, after, added⟩ := addStreaming_of_oneRead (oneReadInput [7]) [7] rfl sampleKey
    (show 1 ≠ 0 by decide) ["library"] fun _ => .absent
  refine ⟨descriptor, after, added, ?_⟩
  refine (seededShare_servable_iff wireBincode_standardSizes appendsTag_transparent ?_ added).mpr
    ⟨?_, ?_⟩
  · simp [oneReadInput]
  · simp [oneReadInput, Codec.rawChunkHeaderSize, maxFrameSize]
  · decide

/-- The bytes of a file as large as the largest frame. -/
def frameSizedFile : Bytes := List.replicate maxFrameSize 0

/-- A file as large as the largest frame is seeded as one chunk that no frame can carry. -/
theorem seededShare_not_servable :
    ∃ descriptor after, addStreaming transparentPrimitives (oneReadInput frameSizedFile) sampleKey
        maxFrameSize ["library"] oneReadSchedule (fun _ => .absent) =
          some (.ok descriptor after) ∧
      ¬Servable wireBincode transparentPrimitives after
        { root := ["library"], shareId := descriptor.shareId } := by
  obtain ⟨descriptor, after, added⟩ := addStreaming_of_oneRead (oneReadInput frameSizedFile)
    frameSizedFile rfl sampleKey
    (show maxFrameSize ≠ 0 by decide) ["library"] fun _ => .absent
  have length : frameSizedFile.length = maxFrameSize := List.length_replicate
  refine ⟨descriptor, after, added, ?_⟩
  intro servable
  have fits := fitsFrames_of_servable wireBincode_standardSizes appendsTag_transparent
    (by simp [oneReadInput, length, maxFrameSize]) added servable
  have chunk_fits := fits.1 frameSizedFile (by simp [oneReadInput])
  rw [length] at chunk_fits
  omega

end Etle
