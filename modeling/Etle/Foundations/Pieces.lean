import Mathlib.Algebra.Ring.Nat
import Mathlib.Data.List.Basic
import Mathlib.Tactic.Common

/-!
# Items laid out end to end

Items with an offset and a size are laid out when each begins where the one before it ends.  The
bytes of all of them, joined, then hold the bytes of each at its own place.  A fold that may fail
keeps what each of its steps keeps.
-/

namespace Etle

variable {Item Byte : Type} {offset size : Item → Nat}

/-- The items follow each other without gaps, from a start on. -/
def LaidOut (offset size : Item → Nat) : Nat → List Item → Prop
  | _, [] => True
  | start, item :: rest => offset item = start ∧ LaidOut offset size (start + size item) rest

/-- One more item is laid out when it begins where the others end. -/
theorem LaidOut.append_singleton {start : Nat} {items : List Item} {item : Item}
    (laid : LaidOut offset size start items)
    (next : offset item = start + (items.map size).sum) :
    LaidOut offset size start (items ++ [item]) := by
  induction items generalizing start with
  | nil => exact ⟨by simpa using next, trivial⟩
  | cons first items ih =>
      refine ⟨laid.1, ih laid.2 ?_⟩
      rw [next, List.map_cons, List.sum_cons]
      omega

/-- The first item is at the start. -/
theorem LaidOut.first {start : Nat} {items : List Item} {item : Item}
    (laid : LaidOut offset size start items) (found : items[0]? = some item) :
    offset item = start := by
  cases items with
  | nil => simp at found
  | cons first items =>
      obtain rfl : first = item := by simpa using found
      exact laid.1

/-- Each item begins where the one before it ends. -/
theorem LaidOut.next {start position : Nat} {items : List Item} {item following : Item}
    (laid : LaidOut offset size start items) (found : items[position]? = some item)
    (found_next : items[position + 1]? = some following) :
    offset following = offset item + size item := by
  induction items generalizing start position with
  | nil => simp at found
  | cons first items ih =>
      cases position with
      | zero =>
          obtain rfl : first = item := by simpa using found
          rw [laid.1]
          exact laid.2.first (by simpa using found_next)
      | succ position => exact ih laid.2 (by simpa using found) (by simpa using found_next)

/-- The bytes of an item are found at its offset. -/
theorem LaidOut.slice {start : Nat} {items : List Item} {item : Item} {content : Item → List Byte}
    (laid : LaidOut offset size start items)
    (sized : ∀ item ∈ items, (content item).length = size item) (member : item ∈ items)
    {front : List Byte} (front_length : front.length = start) :
    ((front ++ items.flatMap content).drop (offset item)).take (size item) = content item := by
  induction items generalizing start front with
  | nil => cases member
  | cons first items ih =>
      have first_length : (content first).length = size first :=
        sized first List.mem_cons_self
      rw [List.flatMap_cons]
      cases member with
      | head =>
          rw [laid.1, ← front_length, List.drop_left, ← first_length, List.take_left]
      | tail _ later =>
          rw [← List.append_assoc]
          exact ih laid.2 (fun other among => sized other (List.mem_cons_of_mem _ among)) later
            (by rw [List.length_append, front_length, first_length])

theorem except_bind_eq_ok {α β ε : Type} {first : Except ε α} {second : α → Except ε β}
    {value : β} :
    first >>= second = .ok value ↔ ∃ middle, first = .ok middle ∧ second middle = .ok value := by
  cases first <;> simp [bind, Except.bind]

/-- What every step of a fold keeps about the items taken so far also holds at the end. -/
theorem foldlM_invariant {α σ ε : Type} {step : σ → α → Except ε σ} (Holds : List α → σ → Prop)
    (keeps : ∀ taken state item next, Holds taken state → step state item = .ok next →
      Holds (taken ++ [item]) next)
    {items : List α} {start final : σ} (holds : Holds [] start)
    (folded : items.foldlM step start = .ok final) : Holds items final := by
  suffices general : ∀ taken, Holds taken start → Holds (taken ++ items) final from
    general [] holds
  clear holds
  induction items generalizing start with
  | nil =>
      intro taken holds
      obtain rfl : start = final := by simpa [pure, Except.pure] using folded
      simpa using holds
  | cons item items ih =>
      intro taken holds
      rw [List.foldlM_cons] at folded
      obtain ⟨next, stepped, rest⟩ := except_bind_eq_ok.mp folded
      have reached := ih rest (taken ++ [item]) (keeps _ _ _ _ holds stepped)
      simpa using reached

end Etle
