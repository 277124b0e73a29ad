import Etle.Foundations.Bytes
import Mathlib.Data.List.Basic
import Mathlib.Data.Nat.Bitwise

/-!
# Bitmaps

A set of positions as a byte string with eight positions in each byte, the lowest bit first.  The
positions are read back in increasing order, byte by byte and bit by bit.
-/

namespace Etle

/-- The byte with a single bit. -/
def bitMask (bit : Nat) : UInt8 := 1 <<< UInt8.ofNat bit

/-- Set one bit. -/
def setBit (bitmap : Bytes) (position : Nat) : Bytes :=
  bitmap.modify (position / 8) (· ||| bitMask (position % 8))

/-- The bits of one byte. -/
def byteBits (byte : UInt8) : List Nat :=
  (List.range 8).filter fun bit => byte &&& bitMask bit ≠ 0

/-- The positions that are set, when the first byte has the given number. -/
def bitPositions (bitmap : Bytes) (first : Nat) : List Nat :=
  (bitmap.zipIdx first).flatMap fun (byte, byteIndex) =>
    (byteBits byte).map fun bit => byteIndex * 8 + bit

theorem toNat_bitMask {bit : Nat} (inside : bit < 8) : (bitMask bit).toNat = 2 ^ bit := by
  revert bit
  decide

/-- A mask selects one bit. -/
theorem and_bitMask_ne_zero {byte : UInt8} {bit : Nat} (inside : bit < 8) :
    byte &&& bitMask bit ≠ 0 ↔ byte.toNat.testBit bit = true := by
  rw [ne_eq, ← UInt8.toNat_inj, UInt8.toNat_and, toNat_bitMask inside, Nat.and_two_pow]
  cases byte.toNat.testBit bit <;> simp

theorem mem_byteBits {byte : UInt8} {bit : Nat} :
    bit ∈ byteBits byte ↔ bit < 8 ∧ byte.toNat.testBit bit = true := by
  simp only [byteBits, List.mem_filter, List.mem_range, decide_eq_true_eq]
  constructor
  · rintro ⟨inside, set⟩
    exact ⟨inside, (and_bitMask_ne_zero inside).mp set⟩
  · rintro ⟨inside, set⟩
    exact ⟨inside, (and_bitMask_ne_zero inside).mpr set⟩

theorem mem_byteBits_or {byte : UInt8} {bit other : Nat} (inside : bit < 8) :
    other ∈ byteBits (byte ||| bitMask bit) ↔ other = bit ∨ other ∈ byteBits byte := by
  simp only [mem_byteBits, UInt8.toNat_or, toNat_bitMask inside, Nat.testBit_or,
    Nat.testBit_two_pow, Bool.or_eq_true, decide_eq_true_eq]
  constructor
  · rintro ⟨small, old | rfl⟩
    · exact .inr ⟨small, old⟩
    · exact .inl rfl
  · rintro (rfl | ⟨small, old⟩)
    · exact ⟨inside, .inr rfl⟩
    · exact ⟨small, .inl old⟩

theorem mem_bitPositions {bitmap : Bytes} {first position : Nat} :
    position ∈ bitPositions bitmap first ↔
      ∃ offset byte, bitmap[offset]? = some byte ∧ position / 8 = first + offset ∧
        position % 8 ∈ byteBits byte := by
  simp only [bitPositions, List.mem_flatMap, List.mem_map, Prod.exists,
    List.mk_mem_zipIdx_iff_le_and_getElem?_sub]
  constructor
  · rintro ⟨byte, byteIndex, ⟨later, found⟩, bit, set, rfl⟩
    have small := (mem_byteBits.mp set).1
    refine ⟨byteIndex - first, byte, found, by omega, ?_⟩
    rwa [show (byteIndex * 8 + bit) % 8 = bit by omega]
  · rintro ⟨offset, byte, found, same, set⟩
    refine ⟨byte, first + offset, ⟨by omega, ?_⟩, position % 8, set, by omega⟩
    rwa [show first + offset - first = offset by omega]

theorem mem_bitPositions_zero {bitmap : Bytes} {position : Nat} :
    position ∈ bitPositions bitmap 0 ↔
      ∃ byte, bitmap[position / 8]? = some byte ∧ position % 8 ∈ byteBits byte := by
  simp [mem_bitPositions]

theorem length_setBit (bitmap : Bytes) (position : Nat) :
    (setBit bitmap position).length = bitmap.length := by
  simp [setBit]

/-- Setting a bit inside the bitmap adds exactly its position. -/
theorem mem_bitPositions_setBit {bitmap : Bytes} {position other : Nat}
    (inside : position / 8 < bitmap.length) :
    other ∈ bitPositions (setBit bitmap position) 0 ↔
      other = position ∨ other ∈ bitPositions bitmap 0 := by
  simp only [mem_bitPositions_zero, setBit]
  by_cases same : other / 8 = position / 8
  · have here := List.getElem?_eq_getElem inside
    have equal : other % 8 = position % 8 ↔ other = position := by omega
    simp [same, here, mem_byteBits_or (Nat.mod_lt position (show 0 < 8 by decide)), equal]
  · have different : other ≠ position := by
      rintro rfl
      exact same rfl
    simp [List.getElem?_modify_ne _ _ (Ne.symm same), different]

/-- Nothing is set in a bitmap of zeros. -/
theorem bitPositions_replicate (length first : Nat) :
    bitPositions (List.replicate length 0) first = [] := by
  rw [List.eq_nil_iff_forall_not_mem]
  intro position member
  obtain ⟨offset, byte, found, -, set⟩ := mem_bitPositions.mp member
  obtain rfl : byte = 0 := List.eq_of_mem_replicate (List.mem_of_getElem? found)
  simp [mem_byteBits] at set

/-- The positions are listed in increasing order. -/
theorem pairwise_bitPositions (bitmap : Bytes) (first : Nat) :
    (bitPositions bitmap first).Pairwise (· < ·) := by
  induction bitmap generalizing first with
  | nil => exact .nil
  | cons byte rest ih =>
      have split : bitPositions (byte :: rest) first =
          (byteBits byte).map (fun bit => first * 8 + bit) ++ bitPositions rest (first + 1) := rfl
      rw [split, List.pairwise_append]
      refine ⟨?_, ih (first + 1), ?_⟩
      · rw [List.pairwise_map]
        exact (List.pairwise_lt_range.filter _).imp fun less => Nat.add_lt_add_left less _
      · intro position early other late
        obtain ⟨bit, set, rfl⟩ := List.mem_map.mp early
        obtain ⟨offset, byte, -, there, -⟩ := mem_bitPositions.mp late
        have small := (mem_byteBits.mp set).1
        omega

end Etle
