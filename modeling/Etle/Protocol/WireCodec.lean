import Etle.Foundations.ByteCodec
import Etle.Protocol.Message

/-!
# The serialisation of wire messages

Fields follow one another in the order of their declaration, a message starts with the number of its
variant, integers and lengths have variable length, and byte arrays of fixed size are written as
they are.
-/

namespace Etle

open ByteCodec

/-- The position of a variant in the declaration of the messages. -/
def WireMessage.variantIndex : WireMessage → UInt8
  | .hello _ => 0
  | .capabilities _ _ => 1
  | .keyExchange _ => 2
  | .authProof _ => 3
  | .requestManifest => 4
  | .requestShare _ => 5
  | .manifest _ => 6
  | .wrappedFileKey _ _ => 7
  | .have _ => 8
  | .requestChunk _ => 9
  | .chunk _ _ => 10
  | .error _ => 11

theorem WireMessage.variantIndex_lt (message : WireMessage) : message.variantIndex < 12 := by
  cases message <;> simp [variantIndex]

/-- A type that is a byte array under another name. -/
def newtypeCodec {α : Type} {width : Nat} (bytes : α → Vector UInt8 width)
    (make : Vector UInt8 width → α) (inverse : ∀ value, make (bytes value) = value) :
    ByteCodec α :=
  (ByteCodec.exact width).via (fun value => some (bytes value)) (fun image => some (make image)) (by
    intro value image mapped
    obtain rfl : bytes value = image := by simpa using mapped
    rw [inverse])

def shareIdCodec : ByteCodec ShareId := newtypeCodec ShareId.bytes ShareId.mk fun _ => rfl

/-- The metadata of one chunk. -/
def chunkMetaCodec : ByteCodec ChunkMeta :=
  (pair uint32 (pair uint64 (pair uint64
    (pair (newtypeCodec Nonce.bytes Nonce.mk fun _ => rfl)
      (newtypeCodec ChunkHash.bytes ChunkHash.mk fun _ => rfl))))).via
    (fun chunk =>
      some (chunk.index, chunk.plainSize, chunk.encryptedSize, chunk.nonce, chunk.blake3Hash))
    (fun (index, plainSize, encryptedSize, nonce, blake3Hash) =>
      some { index, plainSize, encryptedSize, nonce, blake3Hash })
    (by
      intro chunk image mapped
      obtain rfl := by simpa using mapped
      rfl)

/-- A manifest. -/
def manifestCodec : ByteCodec Manifest :=
  (pair (newtypeCodec FileId.bytes FileId.mk fun _ => rfl) (pair text (pair uint64
    (pair uint64 (list chunkMetaCodec))))).via
    (fun manifest => some (manifest.fileId, manifest.fileName, manifest.fileSize,
      manifest.chunkSize, manifest.chunks))
    (fun (fileId, fileName, fileSize, chunkSize, chunks) =>
      some { fileId, fileName, fileSize, chunkSize, chunks })
    (by
      intro manifest image mapped
      obtain rfl := by simpa using mapped
      rfl)

/-- What follows the number of a variant. -/
def wireVariant : Nat → Option (ByteCodec WireMessage)
  | 0 => some (text.via
      (fun | .hello peerId => some peerId | _ => none) (fun peerId => some (.hello peerId))
      (by rintro ⟨⟩ <;> simp))
  | 1 => some ((pair uint16 (list text)).via
      (fun | .capabilities protocolVersion features => some (protocolVersion, features)
           | _ => none)
      (fun (protocolVersion, features) => some (.capabilities protocolVersion features))
      (by rintro ⟨⟩ <;> simp +contextual [eq_comm]))
  | 2 => some ((newtypeCodec PublicKeyBytes.bytes PublicKeyBytes.mk fun _ => rfl).via
      (fun | .keyExchange publicKey => some publicKey | _ => none)
      (fun publicKey => some (.keyExchange publicKey))
      (by rintro ⟨⟩ <;> simp))
  | 3 => some ((ByteCodec.exact 32).via
      (fun | .authProof tag => some tag | _ => none) (fun tag => some (.authProof tag))
      (by rintro ⟨⟩ <;> simp))
  | 4 => some (ByteCodec.empty.via
      (fun | .requestManifest => some () | _ => none) (fun _ => some .requestManifest)
      (by rintro ⟨⟩ <;> simp))
  | 5 => some ((newtypeCodec ShareId.bytes ShareId.mk fun _ => rfl).via
      (fun | .requestShare shareId => some shareId | _ => none)
      (fun shareId => some (.requestShare shareId))
      (by rintro ⟨⟩ <;> simp))
  | 6 => some (manifestCodec.via
      (fun | .manifest manifest => some manifest | _ => none)
      (fun manifest => some (.manifest manifest))
      (by rintro ⟨⟩ <;> simp))
  | 7 => some ((pair (newtypeCodec Nonce.bytes Nonce.mk fun _ => rfl) (list byte)).via
      (fun | .wrappedFileKey nonce data => some (nonce, data) | _ => none)
      (fun (nonce, data) => some (.wrappedFileKey nonce data))
      (by rintro ⟨⟩ <;> simp +contextual [eq_comm]))
  | 8 => some ((list uint32).via
      (fun | .have chunks => some chunks | _ => none) (fun chunks => some (.have chunks))
      (by rintro ⟨⟩ <;> simp))
  | 9 => some (uint32.via
      (fun | .requestChunk index => some index | _ => none)
      (fun index => some (.requestChunk index))
      (by rintro ⟨⟩ <;> simp))
  | 10 => some ((pair uint32 (list byte)).via
      (fun | .chunk index data => some (index, data) | _ => none)
      (fun (index, data) => some (.chunk index data))
      (by rintro ⟨⟩ <;> simp +contextual [eq_comm]))
  | 11 => some (text.via
      (fun | .error message => some message | _ => none) (fun message => some (.error message))
      (by rintro ⟨⟩ <;> simp))
  | _ => none

/-- A message. -/
def wireMessageCodec : ByteCodec WireMessage :=
  variants (fun message => message.variantIndex.toNat) wireVariant

/-- The serialisation of messages in the standard configuration. -/
def wireBincode : Bincode WireMessage := Bincode.ofCodec wireMessageCodec

theorem wireBincode_roundTrip : wireBincode.RoundTrip :=
  Bincode.ofCodec_roundTrip wireMessageCodec

theorem wireBincode_startsWithVariant :
    wireBincode.StartsWithVariant WireMessage.variantIndex := by
  intro message payload encoded
  have small : message.variantIndex.toNat < 251 := by
    have := UInt8.lt_iff_toNat_lt.mp message.variantIndex_lt
    simp only [UInt8.reduceToNat] at this
    omega
  have written : (variants (fun message : WireMessage => message.variantIndex.toNat)
      wireVariant).encode message = some payload := encoded
  simpa using head_variants written small

/-! ## The sizes of the messages that grow with a share -/

/-- The size of the metadata of one chunk. -/
def chunkMetaSize (chunk : ChunkMeta) : Nat :=
  varintSize chunk.index.toNat + (varintSize chunk.plainSize.toNat +
    (varintSize chunk.encryptedSize.toNat + (24 + 32)))

/-- The size of a manifest. -/
def manifestSize (manifest : Manifest) : Nat :=
  32 + (listSize (fun _ => 1) (utf8 manifest.fileName) + (varintSize manifest.fileSize.toNat +
    (varintSize manifest.chunkSize.toNat + listSize chunkMetaSize manifest.chunks)))

/-- The size of a list of chunk indices. -/
def indicesSize (indices : List UInt32) : Nat :=
  listSize (fun index => varintSize index.toNat) indices

/-- The serialisation gives manifests and announcements the sizes of the standard configuration, and
serialises those that a buffer can hold. -/
structure Bincode.StandardSizes (bincode : Bincode WireMessage) : Prop where
  manifest : ∀ manifest payload, bincode.encodeToVec (.manifest manifest) = some payload →
    payload.length = 1 + manifestSize manifest
  have_ : ∀ chunks payload, bincode.encodeToVec (.have chunks) = some payload →
    payload.length = 1 + indicesSize chunks
  encodes_manifest : ∀ manifest, manifestSize manifest < 2 ^ 64 →
    ∃ payload, bincode.encodeToVec (.manifest manifest) = some payload
  encodes_have : ∀ chunks, indicesSize chunks < 2 ^ 64 →
    ∃ payload, bincode.encodeToVec (.have chunks) = some payload

theorem sized_chunkMetaCodec : chunkMetaCodec.Sized chunkMetaSize :=
  (sized_uint32.pair (sized_uint64.pair (sized_uint64.pair
    (((sized_exact 24).via _ _ _).pair ((sized_exact 32).via _ _ _))))).via _ _ _

theorem sized_manifestCodec : manifestCodec.Sized manifestSize :=
  (((sized_exact 32).via _ _ _).pair
    (((sized_byte.list fun _ => Nat.one_pos).via _ _ _).pair (sized_uint64.pair (sized_uint64.pair
      (sized_chunkMetaCodec.list fun chunk => by
        have := varintSize_pos chunk.index.toNat
        unfold chunkMetaSize
        omega))))).via _ _ _

theorem wireBincode_manifest (manifest : Manifest) :
    wireBincode.encodeToVec (.manifest manifest) =
      (manifestCodec.encode manifest).map fun payload => 6 :: payload := by
  change (do return [6] ++ (← manifestCodec.encode manifest) : Option Bytes) = _
  cases manifestCodec.encode manifest <;> rfl

theorem wireBincode_have (chunks : List UInt32) :
    wireBincode.encodeToVec (.have chunks) =
      ((list uint32).encode chunks).map fun payload => 8 :: payload := by
  change (do return [8] ++ (← (list uint32).encode chunks) : Option Bytes) = _
  cases (list uint32).encode chunks <;> rfl

theorem wireBincode_standardSizes : wireBincode.StandardSizes := by
  have sized_have := sized_uint32.list fun index => varintSize_pos index.toNat
  refine ⟨?_, ?_, ?_, ?_⟩
  · intro manifest payload encoded
    rw [wireBincode_manifest, Option.map_eq_some_iff] at encoded
    obtain ⟨body, wrote, rfl⟩ := encoded
    rw [List.length_cons, sized_manifestCodec.length wrote, Nat.add_comm]
  · intro chunks payload encoded
    rw [wireBincode_have, Option.map_eq_some_iff] at encoded
    obtain ⟨body, wrote, rfl⟩ := encoded
    rw [List.length_cons, sized_have.length wrote, Nat.add_comm]
    rfl
  · intro manifest small
    obtain ⟨body, wrote⟩ := sized_manifestCodec.total manifest small
    exact ⟨6 :: body, by rw [wireBincode_manifest, wrote]; rfl⟩
  · intro chunks small
    obtain ⟨body, wrote⟩ := sized_have.total chunks small
    exact ⟨8 :: body, by rw [wireBincode_have, wrote]; rfl⟩

end Etle
