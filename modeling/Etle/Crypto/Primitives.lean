import Etle.Foundations.Bytes
import Mathlib.Data.Set.Function

/-!
# Cryptographic primitives

The hash, the AEAD and the key agreement come from crates outside the repository, so they are the
fields of one structure.  What the program relies on is stated separately: decryption undoes
encryption and the two ends of a key agreement compute one secret.
-/

namespace Etle

/-- The width of every digest, key and public key. -/
abbrev Bytes32 := Vector UInt8 32

/-- Hash of the bytes of a whole file. -/
structure FileId where
  bytes : Bytes32
  deriving DecidableEq

/-- Hash of the bytes of one encrypted chunk. -/
structure ChunkHash where
  bytes : Bytes32
  deriving DecidableEq

/-- Hash of the descriptor of a share. -/
structure ShareId where
  bytes : Bytes32
  deriving DecidableEq

/-- A key of the AEAD. -/
structure SymmetricKey where
  bytes : Bytes32
  deriving DecidableEq

/-- A nonce of the AEAD. -/
structure Nonce where
  bytes : Vector UInt8 24
  deriving DecidableEq

/-- An X25519 public key as it is sent. -/
structure PublicKeyBytes where
  bytes : Bytes32
  deriving DecidableEq

/-- A pre-shared authentication key. -/
structure AuthPsk where
  bytes : Bytes32
  deriving DecidableEq

/-- A proof that its sender holds the pre-shared key. -/
abbrev AuthTag := Bytes32

/-- Failures of the cryptographic layer. -/
inductive CryptoError where
  | encrypt
  | decrypt
  | invalidPublicKey
  | invalidWrappedKeyLength
  deriving DecidableEq

/-- The functions the program takes from its cryptographic crates. -/
structure Primitives where
  /-- `blake3::hash`, also reached by feeding an incremental hasher piece by piece. -/
  blake3 : Bytes → Bytes32
  /-- `blake3::derive_key` with its context string. -/
  deriveKey : String → Bytes → Bytes32
  /-- The keyed hash of `blake3::Hasher::new_keyed`. -/
  keyedBlake3 : Bytes32 → Bytes → Bytes32
  /-- `XChaCha20Poly1305::encrypt` of a message with associated data. -/
  aeadEncrypt : SymmetricKey → Nonce → Bytes → Bytes → Option Bytes
  /-- `XChaCha20Poly1305::decrypt` of a ciphertext with associated data. -/
  aeadDecrypt : SymmetricKey → Nonce → Bytes → Bytes → Option Bytes
  /-- The public key of an ephemeral secret. -/
  x25519Public : Bytes32 → PublicKeyBytes
  /-- The raw Diffie-Hellman result of a secret and a peer's public key. -/
  x25519 : Bytes32 → PublicKeyBytes → Bytes32

namespace Primitives

/-- Decryption with the same key, nonce and associated data undoes encryption. -/
def AeadCorrect (prims : Primitives) : Prop :=
  ∀ key nonce plain aad cipher,
    prims.aeadEncrypt key nonce plain aad = some cipher →
      prims.aeadDecrypt key nonce cipher aad = some plain

/-- Messages of up to 32 bytes, such as a file key, can be encrypted. -/
def EncryptsShort (prims : Primitives) : Prop :=
  ∀ key nonce plain aad, plain.length ≤ 32 →
    ∃ cipher, prims.aeadEncrypt key nonce plain aad = some cipher

/-- Both ends of an X25519 agreement compute the same result. -/
def AgreementCorrect (prims : Primitives) : Prop :=
  ∀ first second,
    prims.x25519 first (prims.x25519Public second) =
      prims.x25519 second (prims.x25519Public first)

/-- The hash tells the given byte strings apart. -/
def CollisionFree (prims : Primitives) (inputs : Set Bytes) : Prop :=
  Set.InjOn prims.blake3 inputs

/-- No other byte string has the hash of this one. -/
def NoSecondPreimage (prims : Primitives) (bytes : Bytes) : Prop :=
  ∀ other, prims.blake3 other = prims.blake3 bytes → other = bytes

/-- Two byte strings are told apart when nothing else has the hash of the first. -/
theorem NoSecondPreimage.collisionFree {prims : Primitives} {bytes : Bytes}
    (unique : prims.NoSecondPreimage bytes) (other : Bytes) :
    prims.CollisionFree {bytes, other} := by
  rintro first (rfl | rfl) second (rfl | rfl) same
  · rfl
  · exact (unique _ same.symm).symm
  · exact unique _ same
  · rfl

end Primitives

variable (prims : Primitives)

/-! ## Hashing -/

/-- Hash of an encrypted chunk. -/
def hashChunk (bytes : Bytes) : ChunkHash := ⟨prims.blake3 bytes⟩

/-- Hash of the whole content of a file. -/
def hashFileId (bytes : Bytes) : FileId := ⟨prims.blake3 bytes⟩

/-! ## Chunk encryption -/

/-- Associated data that binds a chunk to its file, position and size. -/
def buildChunkAad (fileId : FileId) (chunkIndex : UInt32) (plainSize : UInt64) : Bytes :=
  fileId.bytes.toList ++ leBytes 4 chunkIndex.toNat ++ leBytes 8 plainSize.toNat

/-- Encrypt one message, reporting failure as the crate's error. -/
def encryptChunk (key : SymmetricKey) (nonce : Nonce) (plaintext aad : Bytes) :
    Except CryptoError Bytes :=
  match prims.aeadEncrypt key nonce plaintext aad with
  | some cipher => .ok cipher
  | none => .error .encrypt

/-- Decrypt one message, reporting failure as the crate's error. -/
def decryptChunk (key : SymmetricKey) (nonce : Nonce) (ciphertext aad : Bytes) :
    Except CryptoError Bytes :=
  match prims.aeadDecrypt key nonce ciphertext aad with
  | some plain => .ok plain
  | none => .error .decrypt

/-- A message encrypted under a key is decrypted under it. -/
theorem decryptChunk_of_encryptChunk {prims : Primitives} (correct : prims.AeadCorrect)
    {key : SymmetricKey} {nonce : Nonce} {plain aad cipher : Bytes}
    (encrypted : encryptChunk prims key nonce plain aad = .ok cipher) :
    decryptChunk prims key nonce cipher aad = .ok plain := by
  unfold encryptChunk at encrypted
  split at encrypted
  · rename_i result sealed
    obtain rfl : result = cipher := by simpa using encrypted
    simp [decryptChunk, correct key nonce plain aad result sealed]
  · cases encrypted

/-! ## File key wrapping -/

/-- A file key encrypted under a session key. -/
structure WrappedFileKey where
  nonce : Nonce
  data : Bytes

/-- Associated data that binds a wrapped key to its file. -/
def buildFileKeyAad (fileId : FileId) : Bytes :=
  utf8 "etle-file-key-v1" ++ fileId.bytes.toList

/-- Encrypt the file key for the peer of a session, under a freshly drawn nonce. -/
def wrapFileKey (sessionKey : SymmetricKey) (fileId : FileId) (fileKey : SymmetricKey)
    (nonce : Nonce) : Except CryptoError WrappedFileKey := do
  let data ← encryptChunk prims sessionKey nonce fileKey.bytes.toList (buildFileKeyAad fileId)
  return { nonce, data }

/-- Read exactly 32 bytes as a key. -/
def keyOfBytes (bytes : Bytes) : Except CryptoError SymmetricKey :=
  if width : bytes.length = 32 then
    .ok ⟨⟨bytes.toArray, by simpa using width⟩⟩
  else
    .error .invalidWrappedKeyLength

/-- Decrypt a wrapped file key. -/
def unwrapFileKey (sessionKey : SymmetricKey) (fileId : FileId) (wrapped : WrappedFileKey) :
    Except CryptoError SymmetricKey := do
  let bytes ←
    decryptChunk prims sessionKey wrapped.nonce wrapped.data (buildFileKeyAad fileId)
  keyOfBytes bytes

theorem keyOfBytes_toList (key : SymmetricKey) : keyOfBytes key.bytes.toList = .ok key := by
  obtain ⟨⟨array, width⟩⟩ := key
  simp [keyOfBytes, width]

/-- The peer that shares the session key unwraps the key that was wrapped. -/
theorem unwrapFileKey_of_wrapFileKey {prims : Primitives} (correct : prims.AeadCorrect)
    {sessionKey fileKey : SymmetricKey} {fileId : FileId} {nonce : Nonce}
    {wrapped : WrappedFileKey}
    (wrap : wrapFileKey prims sessionKey fileId fileKey nonce = .ok wrapped) :
    unwrapFileKey prims sessionKey fileId wrapped = .ok fileKey := by
  unfold wrapFileKey at wrap
  cases encrypted : encryptChunk prims sessionKey nonce fileKey.bytes.toList
      (buildFileKeyAad fileId) with
  | error failure => simp [encrypted, bind, Except.bind] at wrap
  | ok data =>
      obtain rfl : wrapped = { nonce, data } := by
        simpa [encrypted, bind, Except.bind, pure, Except.pure, eq_comm] using wrap
      simp [unwrapFileKey, decryptChunk_of_encryptChunk correct encrypted, bind, Except.bind,
        keyOfBytes_toList]

end Etle
