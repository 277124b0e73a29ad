import Etle.Foundations.Bytes

/-!
# Unambiguous encodings

An encoding is unambiguous on a domain when the bytes of a value, followed by anything, determine
the value and what follows.  Such encodings can be written one after another and taken apart again
from the left, so that a concatenation of fields is injective.
-/

namespace Etle

variable {α : Type}

/-- The front of a byte string determines the value of the domain that is encoded there. -/
def Unambiguous (encode : α → Bytes) (domain : α → Prop) : Prop :=
  ∀ ⦃first second : α⦄, domain first → domain second → ∀ ⦃firstRest secondRest : Bytes⦄,
    encode first ++ firstRest = encode second ++ secondRest →
      first = second ∧ firstRest = secondRest

namespace Unambiguous

/-- Injective encodings of one width are unambiguous. -/
theorem of_width {encode : α → Bytes} {domain : α → Prop} {width : Nat}
    (sized : ∀ value, (encode value).length = width)
    (injective : ∀ first second, domain first → domain second → encode first = encode second →
      first = second) : Unambiguous encode domain := by
  intro first second first_in second_in firstRest secondRest same
  obtain ⟨front, rest⟩ := List.append_inj same (by rw [sized, sized])
  exact ⟨injective first second first_in second_in front, rest⟩

/-- The items of two sequences of one length are told apart one by one. -/
theorem flatMap {encode : α → Bytes} {domain : α → Prop} (item : Unambiguous encode domain)
    {first second : List α} (lengths : first.length = second.length)
    (first_in : ∀ value ∈ first, domain value) (second_in : ∀ value ∈ second, domain value)
    {firstRest secondRest : Bytes}
    (same : first.flatMap encode ++ firstRest = second.flatMap encode ++ secondRest) :
    first = second ∧ firstRest = secondRest := by
  induction first generalizing second with
  | nil =>
      obtain rfl : second = [] := List.length_eq_zero_iff.mp lengths.symm
      exact ⟨rfl, by simpa using same⟩
  | cons head first ih =>
      cases second with
      | nil => simp at lengths
      | cons other second =>
          simp only [List.flatMap_cons, List.append_assoc] at same
          obtain ⟨rfl, later⟩ := item (first_in _ List.mem_cons_self)
            (second_in _ List.mem_cons_self) same
          obtain ⟨rfl, rest⟩ := ih (by simpa using lengths)
            (fun value member => first_in value (List.mem_cons_of_mem _ member))
            (fun value member => second_in value (List.mem_cons_of_mem _ member)) later
          exact ⟨rfl, rest⟩

end Unambiguous

/-- A number that fits its width is determined by its bytes. -/
theorem unambiguous_leBytes (width : Nat) : Unambiguous (leBytes width) (· < 256 ^ width) := by
  refine .of_width (length_leBytes width) fun first second first_fits second_fits same => ?_
  rw [← leValue_leBytes first_fits, ← leValue_leBytes second_fits, same]

theorem unambiguous_uint16 : Unambiguous (fun value : UInt16 => leBytes 2 value.toNat)
    fun _ => True := by
  intro first second _ _ _ _ same
  obtain ⟨value, rest⟩ := unambiguous_leBytes 2 first.toNat_lt second.toNat_lt same
  exact ⟨UInt16.toNat_inj.mp value, rest⟩

theorem unambiguous_uint32 : Unambiguous (fun value : UInt32 => leBytes 4 value.toNat)
    fun _ => True := by
  intro first second _ _ _ _ same
  obtain ⟨value, rest⟩ := unambiguous_leBytes 4 first.toNat_lt second.toNat_lt same
  exact ⟨UInt32.toNat_inj.mp value, rest⟩

theorem unambiguous_uint64 : Unambiguous (fun value : UInt64 => leBytes 8 value.toNat)
    fun _ => True := by
  intro first second _ _ _ _ same
  obtain ⟨value, rest⟩ := unambiguous_leBytes 8 first.toNat_lt second.toNat_lt same
  exact ⟨UInt64.toNat_inj.mp value, rest⟩

/-- A fixed number of bytes is determined by itself. -/
theorem unambiguous_vector (width : Nat) :
    Unambiguous (fun value : Vector UInt8 width => value.toList) fun _ => True :=
  .of_width (fun _ => Vector.length_toList) fun _ _ _ _ same => Vector.toList_inj.mp same

/-- A length of eight bytes tells where the items of a sequence end. -/
theorem Unambiguous.counted {encode : α → Bytes} {domain : α → Prop}
    (item : Unambiguous encode domain) :
    Unambiguous (fun values : List α => leBytes 8 values.length ++ values.flatMap encode)
      fun values => values.length < 2 ^ 64 ∧ ∀ value ∈ values, domain value := by
  intro first second first_in second_in firstRest secondRest same
  simp only [List.append_assoc] at same
  obtain ⟨lengths, same⟩ := unambiguous_leBytes 8 first_in.1 second_in.1 same
  exact item.flatMap lengths first_in.2 second_in.2 same

theorem utf8_injective : Function.Injective utf8 := by
  intro first second same
  have decoded : some first = some second := by
    rw [← textOfUtf8_utf8 first, ← textOfUtf8_utf8 second, same]
  exact Option.some.inj decoded

end Etle
