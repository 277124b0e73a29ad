import Etle.Crypto.Transparent
import Etle.State.Library

/-!
# Shares of one-byte chunks

The smallest shares that go through every check: under the transparent primitives a chunk is its
byte followed by a tag, and every entry verifies against the disk that stores it.
-/

namespace Etle

/-- The stored bytes of chunk `index` of a share of one-byte chunks. -/
def oneByteChunk (index : UInt32) : Bytes :=
  UInt8.ofNat index.toNat :: List.replicate aeadTagLength 0

/-- The entry of chunk `index` of a share of one-byte chunks. -/
def oneByteEntry (index : UInt32) : ChunkMeta where
  index := index
  plainSize := 1
  encryptedSize := 17
  nonce := ⟨Vector.replicate 24 0⟩
  blake3Hash := hashChunk transparentPrimitives (oneByteChunk index)

/-- A manifest of one-byte chunks with the given indices. -/
def oneByteManifest (indices : List UInt32) : Manifest where
  fileId := hashFileId transparentPrimitives (indices.map fun index => UInt8.ofNat index.toNat)
  fileName := "sample.bin"
  fileSize := UInt64.ofNat indices.length
  chunkSize := 1
  chunks := indices.map oneByteEntry

/-- A disk on which every one-byte chunk is stored. -/
def oneByteDisk : Disk := fun _ =>
  { ShareDir.absent with
    present := true
    chunks := fun
      | .chunk index => some (oneByteChunk index)
      | .part _ _ => none }

/-- Somewhere to look for a share. -/
def samplePaths : LibraryPaths where
  root := ["library"]
  shareId := ⟨Vector.replicate 32 0⟩

/-- A file key. -/
def sampleKey : SymmetricKey := ⟨Vector.replicate 32 7⟩

@[simp]
theorem indices_oneByteManifest (indices : List UInt32) :
    (oneByteManifest indices).indices = indices := by
  simp [oneByteManifest, Manifest.indices, oneByteEntry, Function.comp_def]

end Etle
