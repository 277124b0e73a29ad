import Mathlib.Data.List.InsertIdx
import Mathlib.Tactic.Common
import Mathlib.Order.Basic

/-!
# Binary search in an ordered list

The search halves a window without branching on equality, as the slice search of the Rust standard
library does, and reports the position of the element or the position where it belongs.  On a
strictly ordered list the report is exact, and inserting at the reported position keeps the order.
-/

namespace Etle

variable {α : Type*} [Ord α]

/-- A list ordered by `compare` without repetitions. -/
def StrictlyOrdered (list : List α) : Prop :=
  list.Pairwise fun first second => compare first second = .lt

/-- Shrink the window of `size` elements from `base` on until one candidate is left. -/
def narrow (list : List α) (target : α) : (fuel size base : Nat) → Nat
  | 0, _, base => base
  | fuel + 1, size, base =>
      if 1 < size then
        match list[base + size / 2]? with
        | some probe =>
            if compare probe target = .gt then
              narrow list target fuel (size - size / 2) base
            else
              narrow list target fuel (size - size / 2) (base + size / 2)
        | none => base
      else
        base

/-- `.ok` with the position of the target, or `.error` with the position where it belongs. -/
def binarySearch (list : List α) (target : α) : Except Nat Nat :=
  let base := narrow list target list.length list.length 0
  match list[base]? with
  | some probe =>
      match compare probe target with
      | .eq => .ok base
      | .lt => .error (base + 1)
      | .gt => .error base
  | none => .error base

/-- The window still holds the boundary between the elements up to the target and those above. -/
structure Window (list : List α) (target : α) (size base : Nat) : Prop where
  nonempty : 0 < size
  fits : base + size ≤ list.length
  below : base ≠ 0 → ∀ probe, list[base]? = some probe → compare probe target ≠ .gt
  above : ∀ position probe, base + size ≤ position → list[position]? = some probe →
    compare probe target = .gt

variable {list : List α} {target : α}

theorem StrictlyOrdered.compare_lt (ordered : StrictlyOrdered list) {low high : Nat}
    {lowProbe highProbe : α} (before : low < high) (lowAt : list[low]? = some lowProbe)
    (highAt : list[high]? = some highProbe) : compare lowProbe highProbe = .lt := by
  obtain ⟨lowBound, rfl⟩ := List.getElem?_eq_some_iff.mp lowAt
  obtain ⟨highBound, rfl⟩ := List.getElem?_eq_some_iff.mp highAt
  exact List.pairwise_iff_getElem.mp ordered low high lowBound highBound before

/-- A reported position holds the target. -/
theorem getElem?_of_binarySearch_ok [Std.LawfulEqOrd α] {position : Nat}
    (found : binarySearch list target = .ok position) : list[position]? = some target := by
  unfold binarySearch at found
  simp only at found
  split at found
  · rename_i probe probeAt
    split at found
    · rename_i equal
      obtain rfl := Except.ok.inj found
      rw [probeAt, Std.LawfulEqOrd.eq_of_compare equal]
    · cases found
    · cases found
  · cases found

section Ordered

variable [Std.TransOrd α]

theorem compare_gt_of_lt {low high : α} (order : compare low high = .lt)
    (above : compare low target = .gt) : compare high target = .gt := by
  rw [Std.OrientedCmp.gt_iff_lt] at above ⊢
  exact Std.TransCmp.lt_trans above order

/-- Halving keeps the boundary inside the window. -/
theorem Window.narrow_ready (ordered : StrictlyOrdered list) {fuel size base : Nat}
    (enough : size ≤ fuel + 1) (window : Window list target size base) :
    Window list target 1 (narrow list target fuel size base) := by
  induction fuel generalizing size base with
  | zero =>
      have single : size = 1 := by have := window.nonempty; omega
      subst single
      simpa [narrow] using window
  | succ fuel ih =>
      unfold narrow
      split
      · rename_i wide
        have middle_bound : base + size / 2 < list.length := by have := window.fits; omega
        simp only [List.getElem?_eq_getElem middle_bound]
        split
        · rename_i high
          apply ih (by omega)
          refine ⟨by omega, by have := window.fits; omega, window.below, ?_⟩
          intro position probe beyond probeAt
          rcases Nat.lt_or_ge (base + size / 2) position with later | same
          · exact compare_gt_of_lt
              (ordered.compare_lt later (List.getElem?_eq_getElem middle_bound) probeAt) high
          · obtain rfl : position = base + size / 2 := by omega
            rw [List.getElem?_eq_getElem middle_bound] at probeAt
            obtain rfl := Option.some.inj probeAt
            exact high
        · rename_i low
          apply ih (by omega)
          refine ⟨by omega, by have := window.fits; omega, ?_, ?_⟩
          · intro _ probe probeAt
            rw [List.getElem?_eq_getElem middle_bound] at probeAt
            obtain rfl := Option.some.inj probeAt
            exact low
          · intro position probe beyond probeAt
            exact window.above position probe (by omega) probeAt
      · have single : size = 1 := by have := window.nonempty; omega
        subst single
        exact window

theorem window_narrow (ordered : StrictlyOrdered list) (nonempty : list ≠ []) :
    Window list target 1 (narrow list target list.length list.length 0) := by
  apply Window.narrow_ready ordered (by omega)
  refine ⟨List.length_pos_iff.mpr nonempty, by omega, fun zero => absurd rfl zero, ?_⟩
  intro position probe beyond probeAt
  obtain ⟨bound, -⟩ := List.getElem?_eq_some_iff.mp probeAt
  omega

/-- A reported gap separates the smaller elements from the larger ones. -/
theorem gap_of_binarySearch_error (ordered : StrictlyOrdered list) {gap : Nat}
    (missing : binarySearch list target = .error gap) :
    gap ≤ list.length ∧
      (∀ position probe, position < gap → list[position]? = some probe →
        compare probe target = .lt) ∧
      ∀ position probe, gap ≤ position → list[position]? = some probe →
        compare probe target = .gt := by
  by_cases nonempty : list = []
  · subst nonempty
    obtain rfl : 0 = gap := by simpa [binarySearch, narrow] using missing
    simp
  have window : Window list target 1 (narrow list target list.length list.length 0) :=
    window_narrow ordered nonempty
  unfold binarySearch at missing
  generalize narrow list target list.length list.length 0 = base at window missing
  have base_bound : base < list.length := by have := window.fits; omega
  simp only [List.getElem?_eq_getElem base_bound] at missing
  split at missing
  · cases missing
  · rename_i low
    obtain rfl := Except.error.inj missing
    refine ⟨base_bound, ?_, fun position probe beyond => window.above position probe beyond⟩
    intro position probe inside probeAt
    rcases Nat.lt_or_ge position base with earlier | same
    · exact Std.TransCmp.lt_trans
        (ordered.compare_lt earlier probeAt (List.getElem?_eq_getElem base_bound)) low
    · obtain rfl : position = base := by omega
      rw [List.getElem?_eq_getElem base_bound] at probeAt
      exact Option.some.inj probeAt ▸ low
  · rename_i high
    obtain rfl := Except.error.inj missing
    have first : base = 0 := by
      by_contra later
      exact window.below later _ (List.getElem?_eq_getElem base_bound) high
    subst first
    refine ⟨Nat.zero_le _, by omega, ?_⟩
    intro position probe _ probeAt
    rcases Nat.eq_zero_or_pos position with rfl | later
    · rw [List.getElem?_eq_getElem base_bound] at probeAt
      exact Option.some.inj probeAt ▸ high
    · exact window.above position probe (by omega) probeAt

/-- On an ordered list the search succeeds exactly on the members. -/
theorem binarySearch_isOk_iff [Std.LawfulEqOrd α] (ordered : StrictlyOrdered list) :
    (binarySearch list target).isOk = true ↔ target ∈ list := by
  cases search : binarySearch list target with
  | ok position =>
      simpa [Except.isOk, Except.toBool] using
        List.mem_of_getElem? (getElem?_of_binarySearch_ok search)
  | error gap =>
      obtain ⟨-, before, after⟩ := gap_of_binarySearch_error ordered search
      refine ⟨fun impossible => by simp [Except.isOk, Except.toBool] at impossible, ?_⟩
      intro member
      obtain ⟨position, probeAt⟩ := List.mem_iff_getElem?.mp member
      have same : compare target target = .eq := Std.ReflCmp.compare_self
      rcases Nat.lt_or_ge position gap with inside | beyond
      · exact absurd (same.symm.trans (before position target inside probeAt)) (by decide)
      · exact absurd (same.symm.trans (after position target beyond probeAt)) (by decide)

theorem insertIdx_eq_append {β : Type*} (list : List β) {element : β} {position : Nat}
    (bound : position ≤ list.length) :
    list.insertIdx position element = list.take position ++ element :: list.drop position := by
  induction list generalizing position with
  | nil =>
      obtain rfl : position = 0 := by simpa using bound
      rfl
  | cons head tail ih =>
      cases position with
      | zero => rfl
      | succ position => simp [ih (by simpa using bound)]

/-- Inserting a missing target where the search says it belongs keeps the list ordered. -/
theorem StrictlyOrdered.insertIdx (ordered : StrictlyOrdered list) {gap : Nat}
    (missing : binarySearch list target = .error gap) :
    StrictlyOrdered (list.insertIdx gap target) := by
  obtain ⟨bound, before, after⟩ := gap_of_binarySearch_error ordered missing
  rw [insertIdx_eq_append list bound]
  unfold StrictlyOrdered at ordered ⊢
  rw [← List.take_append_drop gap list] at ordered
  obtain ⟨left, right, across⟩ := List.pairwise_append.mp ordered
  have low_target : ∀ low ∈ list.take gap, compare low target = .lt := by
    intro low member
    obtain ⟨position, lowAt⟩ := List.mem_iff_getElem?.mp member
    obtain ⟨inside, -⟩ := List.getElem?_eq_some_iff.mp lowAt
    rw [List.length_take] at inside
    rw [List.getElem?_take_of_lt (by omega)] at lowAt
    exact before position low (by omega) lowAt
  have target_high : ∀ high ∈ list.drop gap, compare target high = .lt := by
    intro high member
    obtain ⟨position, highAt⟩ := List.mem_iff_getElem?.mp member
    rw [List.getElem?_drop] at highAt
    exact Std.OrientedCmp.gt_iff_lt.mp (after (gap + position) high (by omega) highAt)
  refine List.pairwise_append.mpr ⟨left, List.pairwise_cons.mpr ⟨target_high, right⟩, ?_⟩
  intro low lowMember high highMember
  rcases List.mem_cons.mp highMember with rfl | highMember
  · exact low_target low lowMember
  · exact across low lowMember high highMember

end Ordered

end Etle
