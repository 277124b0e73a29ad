import Mathlib.Algebra.Ring.Nat
import Mathlib.Tactic.Common

/-!
# Fixed-width byte encodings

Encodings have the width they are given, so a concatenation of such fields can be split again from
the left.  A value that fits its width is read back from either byte order.
-/

namespace Etle

/-- A byte string. -/
abbrev Bytes := List UInt8

/-- The `width` low-order bytes of a value, least significant byte first. -/
def leBytes : Nat → Nat → Bytes
  | 0, _ => []
  | width + 1, value => UInt8.ofNat (value % 256) :: leBytes width (value / 256)

@[simp]
theorem length_leBytes (width value : Nat) : (leBytes width value).length = width := by
  induction width generalizing value with
  | zero => rfl
  | succ width ih => simp [leBytes, ih]

/-- The value of a byte string, least significant byte first. -/
def leValue : Bytes → Nat
  | [] => 0
  | byte :: rest => byte.toNat + 256 * leValue rest

theorem leValue_leBytes {width value : Nat} (fits : value < 256 ^ width) :
    leValue (leBytes width value) = value := by
  induction width generalizing value with
  | zero =>
      have zero : value = 0 := by simpa using fits
      rw [zero]
      rfl
  | succ width ih =>
      have smaller : value / 256 < 256 ^ width := by
        rw [Nat.div_lt_iff_lt_mul (by decide), ← Nat.pow_succ]
        exact fits
      simp only [leBytes, leValue, ih smaller, UInt8.toNat_ofNat']
      omega

/-- The `width` low-order bytes of a value, most significant byte first. -/
def beBytes (width value : Nat) : Bytes := (leBytes width value).reverse

/-- The value of a byte string, most significant byte first. -/
def beValue (bytes : Bytes) : Nat := leValue bytes.reverse

@[simp]
theorem length_beBytes (width value : Nat) : (beBytes width value).length = width := by
  simp [beBytes]

theorem beValue_beBytes {width value : Nat} (fits : value < 256 ^ width) :
    beValue (beBytes width value) = value := by
  simp [beValue, beBytes, leValue_leBytes fits]

/-- The first `width` bytes and the others, when there are so many. -/
def takeExact (width : Nat) (bytes : Bytes) : Option (Bytes × Bytes) :=
  if width ≤ bytes.length then some (bytes.take width, bytes.drop width) else none

theorem takeExact_append {width : Nat} {front : Bytes} (width_eq : front.length = width)
    (rest : Bytes) : takeExact width (front ++ rest) = some (front, rest) := by
  subst width_eq
  simp [takeExact]

theorem takeExact_eq_some {width : Nat} {bytes front rest : Bytes} :
    takeExact width bytes = some (front, rest) ↔ front.length = width ∧ bytes = front ++ rest := by
  constructor
  · intro taken
    unfold takeExact at taken
    split at taken
    · rename_i enough
      obtain ⟨rfl, rfl⟩ : bytes.take width = front ∧ bytes.drop width = rest := by
        simpa using taken
      exact ⟨List.length_take_of_le enough, by simp⟩
    · cases taken
  · rintro ⟨width_eq, rfl⟩
    exact takeExact_append width_eq rest

/-- A byte string of known length as a vector. -/
def vectorOfBytes (width : Nat) (bytes : Bytes) : Option (Vector UInt8 width) :=
  if width_eq : bytes.length = width then
    some ⟨bytes.toArray, by simpa using width_eq⟩
  else
    none

@[simp]
theorem vectorOfBytes_toList {width : Nat} (value : Vector UInt8 width) :
    vectorOfBytes width value.toList = some value := by
  obtain ⟨array, rfl⟩ := value
  simp [vectorOfBytes]

/-- The bytes of the UTF-8 encoding of a text. -/
def utf8 (text : String) : Bytes := text.toUTF8.data.toList

/-- The text whose UTF-8 encoding a byte string is, if there is one. -/
def textOfUtf8 (bytes : Bytes) : Option String := String.fromUTF8? ⟨bytes.toArray⟩

@[simp]
theorem textOfUtf8_utf8 (text : String) : textOfUtf8 (utf8 text) = some text := by
  have bytes_eq : (⟨(utf8 text).toArray⟩ : ByteArray) = text.toByteArray := by
    simp [utf8]
  rw [textOfUtf8, bytes_eq, String.fromUTF8?, dif_pos text.isValidUTF8]
  rfl

end Etle
