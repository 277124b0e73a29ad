import Etle.Crypto.Primitives

/-!
# A transparent instance of the primitives

An instance in which nothing is secret but every assumption on the primitives can be checked: the
hash is injective on short inputs, encryption appends an authentication tag of the real width, and
the key agreement adds the two secrets.
-/

namespace Etle

/-- Pad a byte string on the right with zeros, or keep its last `width` bytes. -/
def fitBytes (width : Nat) (bytes : Bytes) : Vector UInt8 width :=
  Vector.ofFn fun position =>
    if bytes.length ≤ width then
      bytes.getD position.val 0
    else
      bytes.getD (bytes.length - width + position.val) 0

/-- A length byte, saturating at 32, followed by the bytes themselves. -/
def transparentHash (bytes : Bytes) : Bytes32 :=
  fitBytes 32 (UInt8.ofNat (min bytes.length 32) :: (fitBytes 31 bytes).toList)

/-- The width of the authentication tag of a ciphertext. -/
def aeadTagLength : Nat := 16

/-- Primitives whose results can be read off. -/
def transparentPrimitives : Primitives where
  blake3 := transparentHash
  deriveKey := fun _ bytes => transparentHash bytes
  keyedBlake3 := fun key bytes =>
    Vector.zipWith (· + ·) key (transparentHash bytes)
  aeadEncrypt := fun _ _ plain _ => some (plain ++ List.replicate aeadTagLength 0)
  aeadDecrypt := fun _ _ cipher _ =>
    if aeadTagLength ≤ cipher.length then
      some (cipher.take (cipher.length - aeadTagLength))
    else
      none
  x25519Public := fun secret => ⟨secret⟩
  x25519 := fun secret peer => Vector.zipWith (· + ·) secret peer.bytes

theorem aeadCorrect_transparent : transparentPrimitives.AeadCorrect := by
  intro key nonce plain aad cipher encrypted
  obtain rfl : plain ++ List.replicate aeadTagLength 0 = cipher := by
    simpa [transparentPrimitives] using encrypted
  simp [transparentPrimitives]

theorem encryptsShort_transparent : transparentPrimitives.EncryptsShort :=
  fun _ _ plain _ _ => ⟨plain ++ List.replicate aeadTagLength 0, rfl⟩

theorem agreementCorrect_transparent : transparentPrimitives.AgreementCorrect := by
  intro first second
  ext position bound
  simp [transparentPrimitives, UInt8.add_comm]

/-- A short input is determined by its transparent hash. -/
theorem noSecondPreimage_transparent {bytes : Bytes} (short : bytes.length < 32) :
    transparentPrimitives.NoSecondPreimage bytes := by
  intro other same
  have agree (position : Nat) (bound : position < 32) :
      (transparentHash other).toList[position]? = (transparentHash bytes).toList[position]? := by
    have equal : transparentHash other = transparentHash bytes := same
    rw [equal]
  have sizes : other.length = bytes.length := by
    have first := agree 0 (by decide)
    simp [transparentHash, fitBytes] at first
    have bound : min other.length 32 < 256 := by omega
    have values := congrArg UInt8.toNat first
    simp only [UInt8.toNat_ofNat'] at values
    omega
  apply List.ext_getElem?
  intro position
  by_cases bound : position < bytes.length
  · have later := agree (position + 1) (by omega)
    have fits : bytes.length ≤ 31 := by omega
    have inside : position + 1 < 32 := by omega
    simp [transparentHash, fitBytes, sizes, fits, bound, inside] at later
    simpa [sizes, bound] using later
  · rw [List.getElem?_eq_none (by omega), List.getElem?_eq_none (by omega)]

end Etle
