import Mathlib.Data.List.AList
import Mathlib.Data.List.Induction
import Mathlib.Tactic.Common

/-!
# Tables that keep the preferred value

A table keeps the first value of each key, unless a later one is preferred and the kept one is not.
What is kept depends on the order of the arrivals only through the first preferred value, or through
the first value when none is preferred.
-/

namespace Etle

variable {Key Value : Type}

/-- The first preferred value, or the first one. -/
def preferredOf (isPreferred : Value → Bool) (values : List Value) : Option Value :=
  (values.find? isPreferred).or values.head?

variable {isPreferred : Value → Bool}

theorem mem_of_preferredOf {values : List Value} {kept : Value}
    (found : preferredOf isPreferred values = some kept) : kept ∈ values := by
  unfold preferredOf at found
  cases preferred : values.find? isPreferred with
  | some value =>
      obtain rfl : value = kept := by simpa [preferred] using found
      exact List.mem_of_find?_eq_some preferred
  | none => exact List.mem_of_mem_head? (by simpa [preferred] using found)

/-- A kept value is preferred if any value is. -/
theorem isPreferred_of_preferredOf {values : List Value} {kept value : Value}
    (found : preferredOf isPreferred values = some kept) (member : value ∈ values)
    (preferred : isPreferred value = true) : isPreferred kept = true := by
  unfold preferredOf at found
  cases first : values.find? isPreferred with
  | some other =>
      obtain rfl : other = kept := by simpa [first] using found
      exact List.find?_some first
  | none => exact absurd preferred (List.find?_eq_none.mp first value member)

theorem preferredOf_isSome {values : List Value} (nonempty : values ≠ []) :
    ∃ kept, preferredOf isPreferred values = some kept := by
  unfold preferredOf
  cases values.find? isPreferred with
  | some value => exact ⟨value, rfl⟩
  | none => exact ⟨values.head nonempty, by simp [List.head?_eq_some_head nonempty]⟩

/-- When values with a property come before all others, and one that can be kept has the property,
then the kept one has it. -/
theorem preferredOf_append {front back : List Value} {kept winner : Value}
    (found : preferredOf isPreferred (front ++ back) = some kept) (member : winner ∈ front)
    (wins : isPreferred winner = true ∨ ∀ value ∈ front ++ back, isPreferred value = false) :
    kept ∈ front := by
  unfold preferredOf at found
  obtain preferred | none_preferred := wins
  · obtain ⟨value, first⟩ := Option.isSome_iff_exists.mp
      (List.find?_isSome.mpr ⟨winner, member, preferred⟩)
    obtain rfl : value = kept := by simpa [List.find?_append, first] using found
    exact List.mem_of_find?_eq_some first
  · have nothing : (front ++ back).find? isPreferred = none :=
      List.find?_eq_none.mpr fun value inside => by simp [none_preferred value inside]
    rw [nothing, Option.none_or, List.head?_append_of_ne_nil _ (List.ne_nil_of_mem member)] at found
    exact List.mem_of_mem_head? found

/-- One more value replaces the kept one only when it is preferred and the kept one is not. -/
theorem preferredOf_append_singleton (values : List Value) (candidate : Value) :
    preferredOf isPreferred (values ++ [candidate]) =
      match preferredOf isPreferred values with
      | none => some candidate
      | some existing =>
          if isPreferred candidate && !isPreferred existing then some candidate
          else some existing := by
  unfold preferredOf
  rw [List.find?_append]
  cases first : values.find? isPreferred with
  | some value => simp [List.find?_some first]
  | none =>
      cases values with
      | nil => cases preferred : isPreferred candidate <;> simp [preferred]
      | cons head tail =>
          have ordinary : isPreferred head = false := by
            simpa using List.find?_eq_none.mp first head List.mem_cons_self
          cases preferred : isPreferred candidate <;> simp [preferred, ordinary]

variable [DecidableEq Key]

/-- Enter a value under a key. -/
def insertPreferred (isPreferred : Value → Bool) (table : AList fun _ : Key => Value) (key : Key)
    (candidate : Value) : AList fun _ : Key => Value :=
  match table.lookup key with
  | none => table.insert key candidate
  | some existing =>
      if isPreferred candidate && !isPreferred existing then table.insert key candidate else table

/-- The table after a sequence of arrivals. -/
def tableOf (isPreferred : Value → Bool) (arrivals : List (Key × Value)) :
    AList fun _ : Key => Value :=
  arrivals.foldl (fun table arrival => insertPreferred isPreferred table arrival.1 arrival.2) ∅

/-- The values that arrived under a key. -/
def valuesOf (arrivals : List (Key × Value)) (key : Key) : List Value :=
  (arrivals.filter fun arrival => arrival.1 = key).map Prod.snd

/-- A table holds under each key what is preferred of the values that arrived under it. -/
theorem lookup_tableOf (arrivals : List (Key × Value)) (key : Key) :
    (tableOf isPreferred arrivals).lookup key =
      preferredOf isPreferred (valuesOf arrivals key) := by
  induction arrivals using List.reverseRecOn with
  | nil => rfl
  | append_singleton arrivals arrival ih =>
      rw [tableOf, List.foldl_append, List.foldl_cons, List.foldl_nil]
      change (insertPreferred isPreferred (tableOf isPreferred arrivals) _ _).lookup key = _
      by_cases same : arrival.1 = key
      · subst same
        have appended : valuesOf (arrivals ++ [arrival]) arrival.1 =
            valuesOf arrivals arrival.1 ++ [arrival.2] := by
          simp [valuesOf]
        rw [appended, preferredOf_append_singleton, ← ih]
        unfold insertPreferred
        split
        · simp
        · rename_i existing found
          split
          · simp
          · exact found
      · have kept : valuesOf (arrivals ++ [arrival]) key = valuesOf arrivals key := by
          simp [valuesOf, same]
        rw [kept, ← ih]
        unfold insertPreferred
        split
        · rw [AList.lookup_insert_ne (Ne.symm same)]
        · split
          · rw [AList.lookup_insert_ne (Ne.symm same)]
          · rfl

/-- The values in a table. -/
def tableValues (table : AList fun _ : Key => Value) : List Value :=
  table.entries.map Sigma.snd

theorem mem_tableValues {table : AList fun _ : Key => Value} {value : Value} :
    value ∈ tableValues table ↔ ∃ key, table.lookup key = some value := by
  simp only [tableValues, List.mem_map, ← Option.mem_def, AList.mem_lookup_iff]
  constructor
  · rintro ⟨⟨key, other⟩, member, rfl⟩
    exact ⟨key, member⟩
  · rintro ⟨key, member⟩
    exact ⟨⟨key, value⟩, member, rfl⟩

end Etle
