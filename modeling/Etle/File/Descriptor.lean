import Etle.Crypto.Primitives

/-!
# Manifests and descriptors

A manifest describes one encrypted file; a descriptor is the public metadata of a share and carries
its own identifier, the hash of every other field.  The two conversions used by the transfer layer
are inverse on the descriptors that seeding produces.
-/

namespace Etle

/-- Public metadata of one encrypted chunk. -/
structure ChunkMeta where
  index : UInt32
  plainSize : UInt64
  encryptedSize : UInt64
  nonce : Nonce
  blake3Hash : ChunkHash
  deriving DecidableEq

/-- Public metadata of one encrypted file, as a peer sends it. -/
structure Manifest where
  fileId : FileId
  fileName : String
  fileSize : UInt64
  chunkSize : UInt64
  chunks : List ChunkMeta
  deriving DecidableEq

/-- The chunk indices of a manifest in its own order. -/
def Manifest.indices (manifest : Manifest) : List UInt32 :=
  manifest.chunks.map ChunkMeta.index

/-- The cipher suites a descriptor can name. -/
inductive CryptoSuite where
  | xChaCha20Poly1305Blake3X25519V1
  deriving DecidableEq

/-- The bytes by which a suite enters the share identifier. -/
def CryptoSuite.asDomainTag : CryptoSuite → Bytes
  | .xChaCha20Poly1305Blake3X25519V1 => utf8 "xchacha20poly1305+blake3+x25519:v1"

/-- One file of a share. -/
structure FileEntry where
  path : String
  size : UInt64
  offset : UInt64
  blake3Hash : FileId
  deriving DecidableEq

/-- Public metadata of a share. -/
structure EtleDescriptor where
  version : UInt16
  name : String
  shareId : ShareId
  totalSize : UInt64
  chunkSize : UInt64
  crypto : CryptoSuite
  files : List FileEntry
  chunks : List ChunkMeta
  deriving DecidableEq

/-- The only descriptor version. -/
def etleDescriptorVersion : UInt16 := 1

/-- A text preceded by its length. -/
def hashString (value : String) : Bytes :=
  leBytes 8 (utf8 value).length ++ utf8 value

/-- What one file contributes to the share identifier. -/
def FileEntry.hashInput (file : FileEntry) : Bytes :=
  hashString file.path ++ leBytes 8 file.size.toNat ++ leBytes 8 file.offset.toNat ++
    file.blake3Hash.bytes.toList

/-- What one chunk contributes to the share identifier. -/
def ChunkMeta.hashInput (chunk : ChunkMeta) : Bytes :=
  leBytes 4 chunk.index.toNat ++ leBytes 8 chunk.plainSize.toNat ++
    leBytes 8 chunk.encryptedSize.toNat ++ chunk.nonce.bytes.toList ++
    chunk.blake3Hash.bytes.toList

/-- The byte string whose hash is the share identifier. -/
def shareIdInput (version : UInt16) (name : String) (totalSize chunkSize : UInt64)
    (crypto : CryptoSuite) (files : List FileEntry) (chunks : List ChunkMeta) : Bytes :=
  utf8 "etle descriptor share id v1" ++ leBytes 2 version.toNat ++ hashString name ++
    leBytes 8 totalSize.toNat ++ leBytes 8 chunkSize.toNat ++ crypto.asDomainTag ++
    leBytes 8 files.length ++ files.flatMap FileEntry.hashInput ++
    leBytes 8 chunks.length ++ chunks.flatMap ChunkMeta.hashInput

variable (prims : Primitives)

/-- The identifier of a share, from every public field of its descriptor. -/
def computeShareId (version : UInt16) (name : String) (totalSize chunkSize : UInt64)
    (crypto : CryptoSuite) (files : List FileEntry) (chunks : List ChunkMeta) : ShareId :=
  ⟨prims.blake3 (shareIdInput version name totalSize chunkSize crypto files chunks)⟩

/-- A descriptor of the current version with its identifier filled in. -/
def EtleDescriptor.new (name : String) (totalSize chunkSize : UInt64) (files : List FileEntry)
    (chunks : List ChunkMeta) : EtleDescriptor where
  version := etleDescriptorVersion
  name := name
  shareId := computeShareId prims etleDescriptorVersion name totalSize chunkSize
    .xChaCha20Poly1305Blake3X25519V1 files chunks
  totalSize := totalSize
  chunkSize := chunkSize
  crypto := .xChaCha20Poly1305Blake3X25519V1
  files := files
  chunks := chunks

/-- The identifier the other fields of a descriptor call for. -/
def EtleDescriptor.recomputeShareId (descriptor : EtleDescriptor) : ShareId :=
  computeShareId prims descriptor.version descriptor.name descriptor.totalSize
    descriptor.chunkSize descriptor.crypto descriptor.files descriptor.chunks

/-- The stored identifier is the one the other fields call for. -/
def EtleDescriptor.verifyShareId (descriptor : EtleDescriptor) : Bool :=
  descriptor.shareId == descriptor.recomputeShareId prims

/-- The descriptor of the one-file share a manifest describes. -/
def descriptorFromManifest (manifest : Manifest) : EtleDescriptor :=
  EtleDescriptor.new prims manifest.fileName manifest.fileSize manifest.chunkSize
    [{ path := manifest.fileName, size := manifest.fileSize, offset := 0,
       blake3Hash := manifest.fileId }]
    manifest.chunks

@[simp]
theorem descriptorFromManifest_chunks (manifest : Manifest) :
    (descriptorFromManifest prims manifest).chunks = manifest.chunks := rfl

/-- A freshly made descriptor passes its own identifier check. -/
@[simp]
theorem verifyShareId_descriptorFromManifest (manifest : Manifest) :
    (descriptorFromManifest prims manifest).verifyShareId prims = true := by
  simp [EtleDescriptor.verifyShareId, EtleDescriptor.recomputeShareId, descriptorFromManifest,
    EtleDescriptor.new]

end Etle
