import Mathlib.Data.Finset.Card
import Mathlib.Tactic.Common

/-!
# Splitting text and numbering names

A text that is split at a separator falls into parts without it.  Names that differ by a number only
are never all taken by fewer of them.
-/

namespace Etle

/-- No part of a split contains the separator. -/
theorem not_mem_of_mem_splitOn {α : Type} [DecidableEq α] {separator : α} {text part : List α}
    (member : part ∈ text.splitOn separator) : separator ∉ part := by
  rw [List.splitOn] at member
  induction text generalizing part with
  | nil =>
      obtain rfl : part = [] := by simpa [List.splitOnP_nil] using member
      exact List.not_mem_nil
  | cons first text ih =>
      rw [List.splitOnP_cons_eq_if_modifyHead] at member
      split at member
      · obtain rfl | later := List.mem_cons.mp member
        · exact List.not_mem_nil
        · exact ih later
      · rename_i apart
        obtain ⟨front, others, parts⟩ :=
          List.exists_cons_of_ne_nil (List.splitOnP_ne_nil (· == separator) text)
        rw [parts, List.modifyHead_cons] at member
        obtain rfl | later := List.mem_cons.mp member
        · have rest := ih (parts ▸ List.mem_cons_self)
          have differs : separator ≠ first := by
            rintro rfl
            exact apart (beq_self_eq_true separator)
          exact fun inside => (List.mem_cons.mp inside).elim differs rest
        · exact ih (parts ▸ List.mem_cons_of_mem _ later)

/-- Among more numbered names than there are taken ones, one is free. -/
theorem exists_free_number {α : Type} [DecidableEq α] {taken : Finset α} {named : Nat → α}
    (different : Function.Injective named) {count : Nat} (few : taken.card < count) :
    ∃ number < count, named number ∉ taken := by
  have more : taken.card < ((Finset.range count).image named).card := by
    rwa [Finset.card_image_of_injective _ different, Finset.card_range]
  obtain ⟨name, numbered, free⟩ := Finset.exists_mem_notMem_of_card_lt_card more
  obtain ⟨number, within, rfl⟩ := Finset.mem_image.mp numbered
  exact ⟨number, Finset.mem_range.mp within, free⟩

end Etle
