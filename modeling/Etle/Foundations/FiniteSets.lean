import Mathlib.Data.List.Perm.Subperm
import Mathlib.Data.List.Nodup
import Mathlib.Tactic.Common

/-!
# Ordered sets of keys

Programs that count completed keys compare the size of an ordered set with the length of a list of
keys: a set inside the list that is as large as the list is long covers the list.
-/

namespace Std.TreeSet

variable {Key : Type*} {cmp : Key → Key → Ordering} {set : TreeSet Key cmp} {keys : List Key}

theorem contains_eq_false_of_not_mem {key : Key} (absent : key ∉ set) :
    set.contains key = false := by
  simpa [← contains_iff_mem] using absent

variable [Std.TransCmp cmp] [Std.LawfulEqCmp cmp]

/-- Inserting a list of keys adds exactly these keys. -/
theorem mem_foldl_insert {start : TreeSet Key cmp} {key : Key} :
    key ∈ keys.foldl (fun set key => set.insert key) start ↔ key ∈ start ∨ key ∈ keys := by
  induction keys generalizing start with
  | nil => simp
  | cons head rest ih =>
      simp only [List.foldl_cons, ih, mem_insert, Std.LawfulEqCmp.compare_eq_iff_eq, List.mem_cons]
      tauto

theorem nodup_toList : set.toList.Nodup := by
  apply set.distinct_toList.imp
  rintro first second different rfl
  exact different Std.ReflCmp.compare_self

theorem size_le_length (inside : ∀ key ∈ set, key ∈ keys) : set.size ≤ keys.length := by
  rw [← length_toList]
  exact (List.subperm_of_subset nodup_toList fun other found =>
    inside other (mem_toList.mp found)).length_le

/-- A set inside a list that is as large as the list is long has the elements of the list. -/
theorem perm_of_size_eq_length (inside : ∀ key ∈ set, key ∈ keys) (full : keys.length ≤ set.size) :
    set.toList.Perm keys := by
  have within : set.toList.Subperm keys :=
    List.subperm_of_subset nodup_toList fun other found => inside other (mem_toList.mp found)
  exact within.perm_of_length_le (by rw [length_toList]; exact full)

theorem mem_of_size_eq_length (inside : ∀ key ∈ set, key ∈ keys) (full : keys.length ≤ set.size)
    {key : Key} (member : key ∈ keys) : key ∈ set :=
  mem_toList.mp ((perm_of_size_eq_length inside full).mem_iff.mpr member)

theorem nodup_of_size_eq_length (inside : ∀ key ∈ set, key ∈ keys)
    (full : keys.length ≤ set.size) : keys.Nodup :=
  (perm_of_size_eq_length inside full).nodup_iff.mp nodup_toList

end Std.TreeSet
