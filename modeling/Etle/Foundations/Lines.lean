import Mathlib.Data.List.DropRight
import Mathlib.Data.List.Infix
import Mathlib.Tactic.Common

/-!
# Lines of text

Text is a list of characters.  It is cut into lines, a line is trimmed of white space at both ends,
and it is split at the first occurrence of a separator.
-/

namespace Etle

/-- The characters with the Unicode property `White_Space`. -/
def isWhitespace (character : Char) : Bool :=
  let point := character.toNat
  (9 ≤ point && point ≤ 13) || point = 0x20 || point = 0x85 || point = 0xa0 || point = 0x1680 ||
    (0x2000 ≤ point && point ≤ 0x200a) || point = 0x2028 || point = 0x2029 || point = 0x202f ||
    point = 0x205f || point = 0x3000

/-- White space only. -/
def Blank (text : List Char) : Prop := ∀ character ∈ text, isWhitespace character = true

instance decidableBlank (text : List Char) : Decidable (Blank text) :=
  List.decidableBAll (fun character => isWhitespace character = true) text

/-- No white space at either end. -/
def Tight (text : List Char) : Prop :=
  (∀ first ∈ text.head?, isWhitespace first = false) ∧
    ∀ last ∈ text.getLast?, isWhitespace last = false

theorem tight_of_visible {text : List Char}
    (visible : ∀ character ∈ text, isWhitespace character = false) : Tight text :=
  ⟨fun first starts => visible first (List.mem_of_mem_head? starts),
    fun last ends => visible last (List.mem_of_mem_getLast? ends)⟩

/-- What stands between two texts without white space at their ends does not matter. -/
theorem Tight.join {left right : List Char} (left_tight : Tight left) (right_tight : Tight right)
    (left_some : left ≠ []) (right_some : right ≠ []) (middle : List Char) :
    Tight (left ++ middle ++ right) := by
  refine ⟨?_, ?_⟩
  · rw [List.append_assoc, List.head?_append_of_ne_nil _ left_some]
    exact left_tight.1
  · rw [List.getLast?_append_of_ne_nil _ right_some]
    exact right_tight.2

/-- Remove the white space at both ends. -/
def trim (text : List Char) : List Char :=
  (text.dropWhile isWhitespace).rdropWhile isWhitespace

theorem dropWhile_append_tight {front core : List Char} (blank : Blank front) (tight : Tight core) :
    (front ++ core).dropWhile isWhitespace = core := by
  rw [List.dropWhile_append_of_pos blank]
  cases core with
  | nil => rfl
  | cons first core =>
      have visible : isWhitespace first = false := tight.1 first rfl
      exact List.dropWhile_cons_of_neg (by simp [visible])

theorem blank_nil : Blank [] := by simp [Blank]

/-- Trimming keeps what lies between the white space. -/
theorem trim_append {front core back : List Char} (front_blank : Blank front) (tight : Tight core)
    (back_blank : Blank back) : trim (front ++ core ++ back) = core := by
  have reversed : Tight core.reverse := by
    refine ⟨?_, ?_⟩
    · rw [List.head?_reverse]
      exact tight.2
    · rw [List.getLast?_reverse]
      exact tight.1
  cases core with
  | nil =>
      have all_blank : Blank (front ++ back) := by
        intro character member
        exact (List.mem_append.mp member).elim (front_blank character) (back_blank character)
      simp only [trim, List.append_nil]
      rw [List.dropWhile_eq_nil_iff.mpr all_blank]
      rfl
  | cons first core =>
      have visible : isWhitespace first = false := tight.1 first rfl
      rw [trim, List.append_assoc, List.dropWhile_append_of_pos front_blank, List.cons_append,
        List.dropWhile_cons_of_neg (by simp [visible]), ← List.cons_append, List.rdropWhile,
        List.reverse_append, dropWhile_append_tight (by simpa [Blank] using back_blank) reversed,
        List.reverse_reverse]

/-- The parts before and after the first separator. -/
def splitOnce {α : Type} [DecidableEq α] (separator : α) : List α → Option (List α × List α)
  | [] => none
  | first :: rest =>
      if first = separator then
        some ([], rest)
      else
        (splitOnce separator rest).map fun (left, right) => (first :: left, right)

theorem splitOnce_append {α : Type} [DecidableEq α] {separator : α} {left : List α}
    (absent : separator ∉ left) (right : List α) :
    splitOnce separator (left ++ separator :: right) = some (left, right) := by
  induction left with
  | nil => simp [splitOnce]
  | cons first left ih =>
      rw [List.mem_cons, not_or] at absent
      obtain ⟨differs, absent⟩ := absent
      simp [splitOnce, Ne.symm differs, ih absent]

/-- The words of a text, which white space separates. -/
def words (text : List Char) : List (List Char) :=
  (text.splitOnP isWhitespace).filter (· ≠ [])

/-- The text contains the other one. -/
def containsText (text part : String) : Bool := part.toList <:+: text.toList

/-- A line without the carriage return at its end. -/
def stripReturn (line : List Char) : List Char :=
  if line.getLast? = some '\r' then line.dropLast else line

/-- The lines of a text, each without its line feed or carriage return and line feed; what follows
the last line feed is a line unless it is empty. -/
def lines (text : List Char) : List (List Char) :=
  let pieces := text.splitOn '\n'
  pieces.dropLast.map stripReturn ++ pieces.getLast?.toList.filter (· ≠ [])

example : lines "one\r\n\ntwo\r".toList = ["one".toList, [], "two\r".toList] := by decide

end Etle
