import Etle.Foundations.FiniteSets
import Etle.State.Library

/-!
# Serving chunks of a share

After the negotiation a server answers announcements and chunk requests until every chunk of the
share is served or known to the client.  The answer to one message is a function of the share on
disk and of the set of chunks served or known so far.
-/

namespace Etle

open Std (TreeSet)

/-- The manifest of a descriptor with exactly one file. -/
def manifestFromDescriptor (descriptor : EtleDescriptor) : Except NetworkError Manifest :=
  match descriptor.files with
  | [file] =>
      .ok {
        fileId := file.blake3Hash
        fileName := file.path
        fileSize := descriptor.totalSize
        chunkSize := descriptor.chunkSize
        chunks := descriptor.chunks }
  | files => .error (.unsupportedMultiFileDescriptor files.length)

/-- Converting a manifest to a descriptor and back gives the manifest again. -/
@[simp]
theorem manifestFromDescriptor_descriptorFromManifest (prims : Primitives) (manifest : Manifest) :
    manifestFromDescriptor (descriptorFromManifest prims manifest) = .ok manifest := rfl

theorem chunks_of_manifestFromDescriptor {descriptor : EtleDescriptor} {manifest : Manifest}
    (converted : manifestFromDescriptor descriptor = .ok manifest) :
    manifest.chunks = descriptor.chunks := by
  unfold manifestFromDescriptor at converted
  split at converted
  · obtain rfl := Except.ok.inj converted
    rfl
  · cases converted

/-- The header of a raw chunk frame: its tag and the index. -/
def rawChunkHeaderSize : Nat := 1 + 4

/-- The frame that carries a chunk file of the expected size. -/
def sendChunkFile (disk : Disk) (paths : LibraryPaths) (index : UInt32) (expectedSize : UInt64) :
    Except ProtocolError Frame :=
  match (disk paths).chunks (.chunk index) with
  | none => .error (.io .notFound)
  | some data =>
      if UInt64.ofNat data.length ≠ expectedSize then
        .error (.rawChunkSizeMismatch expectedSize.toNat data.length)
      else if maxFrameSize < rawChunkHeaderSize + data.length then
        .error (.frameTooLarge (rawChunkHeaderSize + data.length) maxFrameSize)
      else
        .ok (.raw index data)

/-- A share as a server session has loaded it. -/
structure ServedShare where
  disk : Disk
  paths : LibraryPaths
  descriptor : EtleDescriptor
  available : TreeSet UInt32

/-- A share with the chunks that are available when the session starts. -/
def ServedShare.load (prims : Primitives) (disk : Disk) (paths : LibraryPaths)
    (descriptor : EtleDescriptor) : ServedShare where
  disk := disk
  paths := paths
  descriptor := descriptor
  available :=
    (availableChunkIndexes prims disk paths descriptor).foldl (fun set index => set.insert index) ∅

/-- The announced chunks that this server also has. -/
def noteKnown (available : TreeSet UInt32) (known : TreeSet UInt32) (chunks : List UInt32) :
    TreeSet UInt32 :=
  chunks.foldl
    (fun known index => if available.contains index then known.insert index else known) known

/-- What a server says about a chunk it does not have. -/
def unavailableMessage (index : UInt32) : String :=
  "chunk " ++ toString index.toNat ++ " is not available from this peer"

/-- One turn of the chunk loop: the frames to send and the chunks served or known after it. -/
def serveMessage (share : ServedShare) (servedOrKnown : TreeSet UInt32) :
    WireMessage → Except NetworkError (List Frame × TreeSet UInt32)
  | .have chunks => .ok ([], noteKnown share.available servedOrKnown chunks)
  | .requestChunk index =>
      if !share.available.contains index then
        .ok ([.encoded (.error (unavailableMessage index))], servedOrKnown)
      else
        match share.descriptor.chunks.find? fun entry => entry.index == index with
        | none => .error (.missingEncryptedChunk index)
        | some entry =>
            match sendChunkFile share.disk share.paths index entry.encryptedSize with
            | .error error => .error (.protocol error)
            | .ok frame => .ok ([frame], servedOrKnown.insert index)
  | actual => .error (.unexpectedMessage "Have or RequestChunk" actual)

/-! ## Facts about serving -/

/-- What a server advertises are the entries whose chunk verifies. -/
theorem mem_available_load {prims : Primitives} {disk : Disk} {paths : LibraryPaths}
    {descriptor : EtleDescriptor} {index : UInt32} :
    index ∈ (ServedShare.load prims disk paths descriptor).available ↔
      ∃ entry ∈ descriptor.chunks, entry.index = index ∧
        chunkVerifies prims disk paths entry = true := by
  simp only [ServedShare.load, TreeSet.mem_foldl_insert, availableChunkIndexes_eq]
  constructor
  · rintro (impossible | member)
    · simp at impossible
    · obtain ⟨entry, found, rfl⟩ := List.mem_map.mp member
      obtain ⟨entry_mem, verifies⟩ := List.mem_filter.mp found
      exact ⟨entry, entry_mem, rfl, verifies⟩
  · rintro ⟨entry, entry_mem, rfl, verifies⟩
    exact .inr (List.mem_map_of_mem (List.mem_filter.mpr ⟨entry_mem, verifies⟩))

theorem mem_noteKnown {available known : TreeSet UInt32} {chunks : List UInt32} {index : UInt32} :
    index ∈ noteKnown available known chunks ↔
      index ∈ known ∨ (index ∈ chunks ∧ index ∈ available) := by
  unfold noteKnown
  induction chunks generalizing known with
  | nil => simp
  | cons head rest ih =>
      rw [List.foldl_cons, ih]
      by_cases has : head ∈ available
      · rw [if_pos (TreeSet.contains_iff_mem.mpr has), TreeSet.mem_insert,
          Std.LawfulEqCmp.compare_eq_iff_eq, List.mem_cons]
        constructor
        · rintro ((rfl | old) | ⟨later, available⟩)
          · exact .inr ⟨.inl rfl, has⟩
          · exact .inl old
          · exact .inr ⟨.inr later, available⟩
        · rintro (old | ⟨rfl | later, available⟩)
          · exact .inl (.inr old)
          · exact .inl (.inl rfl)
          · exact .inr ⟨later, available⟩
      · rw [if_neg (by simpa [TreeSet.contains_iff_mem] using has), List.mem_cons]
        constructor
        · rintro (old | ⟨later, available⟩)
          · exact .inl old
          · exact .inr ⟨.inr later, available⟩
        · rintro (old | ⟨rfl | later, available⟩)
          · exact .inl old
          · exact absurd available has
          · exact .inr ⟨later, available⟩

/-- A chunk file is sent exactly when it has the expected size and fits a frame. -/
theorem sendChunkFile_eq_ok {disk : Disk} {paths : LibraryPaths} {index : UInt32}
    {expectedSize : UInt64} {frame : Frame} :
    sendChunkFile disk paths index expectedSize = .ok frame ↔
      ∃ data, (disk paths).chunks (.chunk index) = some data ∧
        UInt64.ofNat data.length = expectedSize ∧
        rawChunkHeaderSize + data.length ≤ maxFrameSize ∧ frame = .raw index data := by
  unfold sendChunkFile
  cases (disk paths).chunks (.chunk index) with
  | none => simp
  | some data =>
      by_cases size : UInt64.ofNat data.length = expectedSize
      · by_cases large : maxFrameSize < rawChunkHeaderSize + data.length
        · simp [size, large]
        · simp [size, large, Nat.not_lt.mp large, eq_comm]
      · simp [size]

/-- A verified chunk within the frame limit is sent as it is. -/
theorem sendChunkFile_of_verifies {prims : Primitives} {disk : Disk} {paths : LibraryPaths}
    {entry : ChunkMeta} (verifies : chunkVerifies prims disk paths entry = true)
    (fits : ∀ data, (disk paths).chunks (.chunk entry.index) = some data →
      rawChunkHeaderSize + data.length ≤ maxFrameSize) :
    ∃ data, sendChunkFile disk paths entry.index entry.encryptedSize = .ok (.raw entry.index data) ∧
      hashChunk prims data = entry.blake3Hash := by
  obtain ⟨data, stored, size, hash⟩ := chunkVerifies_iff.mp verifies
  exact ⟨data, sendChunkFile_eq_ok.mpr ⟨data, stored, size, fits data stored, rfl⟩, hash⟩

/-- A request for an available chunk is answered with the verified bytes of its entry. -/
theorem serveMessage_requestChunk {prims : Primitives} {disk : Disk} {paths : LibraryPaths}
    {descriptor : EtleDescriptor} (distinct : (descriptor.chunks.map ChunkMeta.index).Nodup)
    (fits : ∀ entry ∈ descriptor.chunks, ∀ data,
      (disk paths).chunks (.chunk entry.index) = some data →
        rawChunkHeaderSize + data.length ≤ maxFrameSize) {index : UInt32}
    (available : index ∈ (ServedShare.load prims disk paths descriptor).available)
    (servedOrKnown : TreeSet UInt32) :
    ∃ entry ∈ descriptor.chunks, entry.index = index ∧ ∃ data,
      hashChunk prims data = entry.blake3Hash ∧
      serveMessage (ServedShare.load prims disk paths descriptor) servedOrKnown
        (.requestChunk index) = .ok ([.raw index data], servedOrKnown.insert index) := by
  obtain ⟨entry, member, rfl, verifies⟩ := mem_available_load.mp available
  obtain ⟨data, sent, hash⟩ := sendChunkFile_of_verifies verifies (fits entry member)
  obtain ⟨found, found_eq⟩ : ∃ found, descriptor.chunks.find?
      (fun other => other.index == entry.index) = some found := by
    apply Option.isSome_iff_exists.mp
    rw [List.find?_isSome]
    exact ⟨entry, member, by simp⟩
  obtain rfl : found = entry := List.inj_on_of_nodup_map distinct
    (List.mem_of_find?_eq_some found_eq) member (by simpa using List.find?_some found_eq)
  refine ⟨found, member, rfl, data, hash, ?_⟩
  simp only [serveMessage, TreeSet.contains_iff_mem.mpr available, Bool.not_true,
    Bool.false_eq_true, if_false]
  simp only [ServedShare.load, found_eq, sent]

end Etle
