import Etle.Crypto.Primitives

/-!
# Session keys and authentication tags

The session key is derived from the X25519 result and both public keys in order.  A tag proves that
its sender holds the pre-shared key; its input names the role of the sender, the session key and
both public keys, and different inputs are different byte strings.
-/

namespace Etle

/-- The result of an X25519 agreement; an all-zero result is rejected. -/
def diffieHellman (prims : Primitives) (secret : Bytes32) (peerPublicKey : PublicKeyBytes) :
    Except CryptoError Bytes32 :=
  let shared := prims.x25519 secret peerPublicKey
  if shared.all fun byte => byte == 0 then .error .invalidPublicKey else .ok shared

theorem diffieHellman_eq_ok {prims : Primitives} {secret shared : Bytes32}
    {peerPublicKey : PublicKeyBytes} :
    diffieHellman prims secret peerPublicKey = .ok shared ↔
      prims.x25519 secret peerPublicKey = shared ∧ ¬shared.all fun byte => byte == 0 := by
  simp only [diffieHellman]
  split
  · rename_i zero
    simp only [reduceCtorEq, false_iff, not_and, not_not]
    rintro rfl
    exact zero
  · rename_i usable
    rw [Except.ok.injEq]
    constructor
    · rintro rfl
      exact ⟨rfl, usable⟩
    · exact And.left

/-- The session key of a transcript. -/
def deriveSessionKeyWithTranscript (prims : Primitives) (sharedSecret : Bytes32)
    (clientPublicKey serverPublicKey : PublicKeyBytes) : SymmetricKey :=
  ⟨prims.deriveKey "etle v1 x25519 transcript-bound session key"
    (sharedSecret.toList ++ clientPublicKey.bytes.toList ++ serverPublicKey.bytes.toList)⟩

/-- Which end of a session a tag speaks for. -/
inductive AuthRole where
  | client
  | server
  deriving DecidableEq

/-- The name of a role in the input of a tag. -/
def AuthRole.label : AuthRole → Bytes
  | .client => utf8 "client"
  | .server => utf8 "server"

/-- The input of the keyed hash of a tag. -/
def authTagInput (sessionKey : SymmetricKey) (clientPublicKey serverPublicKey : PublicKeyBytes)
    (role : AuthRole) : Bytes :=
  utf8 "etle v1 psk-authenticated x25519 transcript" ++ role.label ++ sessionKey.bytes.toList ++
    clientPublicKey.bytes.toList ++ serverPublicKey.bytes.toList

/-- The tag of one end of a session. -/
def deriveAuthTag (prims : Primitives) (psk : AuthPsk) (sessionKey : SymmetricKey)
    (clientPublicKey serverPublicKey : PublicKeyBytes) (role : AuthRole) : AuthTag :=
  prims.keyedBlake3 psk.bytes (authTagInput sessionKey clientPublicKey serverPublicKey role)

/-- Compare two tags without stopping at the first difference. -/
def authTagsEqual (left right : AuthTag) : Bool :=
  (left.toList.zip right.toList).foldl (fun diff pair => diff ||| (pair.1 ^^^ pair.2)) 0 == 0

/-- Folding differences gives zero exactly when there is none. -/
theorem foldl_diff_eq_zero (pairs : List (UInt8 × UInt8)) (start : UInt8) :
    pairs.foldl (fun diff pair => diff ||| (pair.1 ^^^ pair.2)) start = 0 ↔
      start = 0 ∧ ∀ pair ∈ pairs, pair.1 = pair.2 := by
  induction pairs generalizing start with
  | nil => simp
  | cons pair pairs ih =>
      rw [List.foldl_cons, ih, UInt8.or_eq_zero_iff, UInt8.xor_eq_zero_iff]
      simp [and_assoc]

/-- The comparison accepts exactly equal tags. -/
theorem authTagsEqual_iff {left right : AuthTag} :
    authTagsEqual left right = true ↔ left = right := by
  simp only [authTagsEqual, beq_iff_eq, foldl_diff_eq_zero, true_and]
  constructor
  · intro agree
    apply Vector.toList_inj.mp
    apply List.ext_getElem (by simp)
    intro position left_bound right_bound
    have bound : position < (left.toList.zip right.toList).length := by
      simpa using left_bound
    have member := List.getElem_mem bound
    rw [List.getElem_zip] at member
    exact agree _ member
  · rintro rfl pair member
    obtain ⟨position, bound, rfl⟩ := List.getElem_of_mem member
    simp

/-- The input of a tag determines its role, its session key and both public keys. -/
theorem authTagInput_injective {firstKey secondKey : SymmetricKey}
    {firstClient firstServer secondClient secondServer : PublicKeyBytes}
    {firstRole secondRole : AuthRole}
    (same : authTagInput firstKey firstClient firstServer firstRole =
      authTagInput secondKey secondClient secondServer secondRole) :
    firstKey = secondKey ∧ firstClient = secondClient ∧ firstServer = secondServer ∧
      firstRole = secondRole := by
  have label_length (role : AuthRole) : role.label.length = 6 := by cases role <;> rfl
  simp only [authTagInput, List.append_assoc] at same
  obtain ⟨role_eq, rest⟩ := List.append_inj (List.append_cancel_left same) (by
    rw [label_length, label_length])
  obtain ⟨key_eq, rest⟩ := List.append_inj rest (by simp)
  obtain ⟨client_eq, server_eq⟩ := List.append_inj rest (by simp)
  refine ⟨?_, ?_, ?_, ?_⟩
  · exact congrArg SymmetricKey.mk (Vector.toList_inj.mp key_eq)
  · exact congrArg PublicKeyBytes.mk (Vector.toList_inj.mp client_eq)
  · exact congrArg PublicKeyBytes.mk (Vector.toList_inj.mp server_eq)
  · cases firstRole <;> cases secondRole
    · rfl
    · exact absurd role_eq (by decide)
    · exact absurd role_eq (by decide)
    · rfl

end Etle
