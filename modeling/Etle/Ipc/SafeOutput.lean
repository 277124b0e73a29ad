import Etle.Foundations.Text
import Etle.Ipc.Output

/-!
# Where a peer's file name can lead

The name in a manifest is chosen by the peer.  What is taken from it is one normal component, and
the name of a copy is one again, so a finished download stays in the output directory.
-/

namespace Etle

/-- A name that leads one directory down, whatever the directory. -/
structure NormalComponent (name : String) : Prop where
  nonempty : name ≠ ""
  not_here : name ≠ "."
  not_parent : name ≠ ".."
  no_slash : '/' ∉ name.toList

/-- The last component of a text is a normal one. -/
theorem normalComponent_of_pathFileName {path name : String}
    (found : pathFileName path = some name) : NormalComponent name := by
  unfold pathFileName at found
  split at found
  · cases found
  · cases found
  · rename_i last not_parent listed
    obtain rfl := Option.some.inj found
    have member := List.mem_of_getLast? listed
    obtain ⟨split, kept⟩ := List.mem_filter.mp member
    obtain ⟨part, part_split, rfl⟩ := List.mem_map.mp split
    have kept : String.ofList part ≠ "" ∧ String.ofList part ≠ "." := by simpa using kept
    refine ⟨kept.1, kept.2, not_parent, ?_⟩
    rw [String.toList_ofList]
    exact not_mem_of_mem_splitOn part_split

/-- What is taken from the name in a manifest is a normal component. -/
theorem normalComponent_safeOutputFileName (fileName : String) :
    NormalComponent (safeOutputFileName fileName) := by
  unfold safeOutputFileName
  split
  · exact ⟨by decide, by decide, by decide, by decide⟩
  · exact ⟨by decide, by decide, by decide, by decide⟩
  · rename_i name _ found
    exact normalComponent_of_pathFileName found

/-- A name is its stem, or its stem and its extension around a dot. -/
theorem toList_of_splitExtension {name stem extension : String}
    (split : splitExtension name = (stem, some extension)) :
    name.toList = stem.toList ++ '.' :: extension.toList := by
  unfold splitExtension at split
  split at split
  · cases split
  · rw [List.span_eq_takeWhile_dropWhile] at split
    have whole := List.takeWhile_append_dropWhile (p := (· ≠ '.')) (l := name.toList.reverse)
    dsimp only at split
    split at split
    · cases split
    · cases split
    · rename_i dot front _ dropped
      obtain ⟨rfl, rfl⟩ := by simpa using split
      have is_dot : dot = '.' := by
        have head := List.head?_dropWhile_not (fun char => decide (char ≠ '.')) name.toList.reverse
        rw [dropped] at head
        simpa using head
      rw [dropped, is_dot] at whole
      simpa using (congrArg List.reverse whole).symm

theorem eq_of_splitExtension {name stem : String} (split : splitExtension name = (stem, none)) :
    stem = name := by
  unfold splitExtension at split
  split at split
  · exact (Prod.mk.inj split).1.symm
  · dsimp only at split
    split at split
    · exact (Prod.mk.inj split).1.symm
    · exact (Prod.mk.inj split).1.symm
    · cases split

/-- The digits of a number contain no slash. -/
theorem slash_not_mem_toString (number : Nat) : '/' ∉ (toString number).toList := by
  rw [Nat.toString_eq_repr, Nat.toList_repr]
  intro inside
  exact absurd (Nat.isDigit_of_mem_toDigits (by decide) (by decide) inside) (by decide)

/-- The name of a copy is a normal component when the name is. -/
theorem normalComponent_copyName {name : String} (normal : NormalComponent name)
    (copyIndex : Nat) : NormalComponent (copyName name copyIndex) := by
  have digits := slash_not_mem_toString copyIndex
  have bracket : '(' ∈ (copyName name copyIndex).toList := by
    unfold copyName
    split <;> simp
  have slash : '/' ∉ (copyName name copyIndex).toList := by
    have kept := normal.no_slash
    unfold copyName
    split
    · rename_i stem extension split
      rw [toList_of_splitExtension split] at kept
      simp at kept digits ⊢
      grind
    · rename_i stem split
      rw [eq_of_splitExtension split]
      simp at kept digits ⊢
      grind
  refine ⟨?_, ?_, ?_, slash⟩
  all_goals
    intro same
    rw [same] at bracket
    exact absurd bracket (by decide)

/-- Copies with different indices have different names. -/
theorem copyName_injective (name : String) : Function.Injective (copyName name) := by
  have digits : Function.Injective fun number : Nat => toString number := by
    intro first second same
    have chars : Nat.toDigits 10 first = Nat.toDigits 10 second := by
      simpa using congrArg String.toList same
    rw [← Nat.ofDigitChars_ten_toDigits (n := first), chars, Nat.ofDigitChars_ten_toDigits]
  intro first second same
  unfold copyName at same
  cases split : splitExtension name with
  | mk stem extension =>
      rw [split] at same
      apply digits
      cases extension with
      | none => simpa using same
      | some extension => simpa using same

/-- A copy is not named like the original. -/
theorem copyName_ne (name : String) (copyIndex : Nat) : copyName name copyIndex ≠ name := by
  intro same
  have same_length := congrArg (fun text => text.toList.length) same
  unfold copyName at same_length
  cases split : splitExtension name with
  | mk stem extension =>
      rw [split] at same_length
      cases extension with
      | none =>
          rw [eq_of_splitExtension split] at same_length
          simp at same_length
      | some extension =>
          rw [toList_of_splitExtension split] at same_length
          simp at same_length
          omega

/-- When a copy is free, the first free one is found, and its index is no larger. -/
theorem firstFreeCopy_of_free (isThere : PathBuf → Bool) {parent : PathBuf} {name : String}
    {start number fuel : Nat} (free : isThere (parent ++ [copyName name (start + number)]) = false)
    (enough : number < fuel) :
    ∃ copyIndex ≤ start + number, start ≤ copyIndex ∧
      firstFreeCopy isThere parent name start fuel =
        some (parent ++ [copyName name copyIndex]) := by
  induction fuel generalizing start number with
  | zero => omega
  | succ fuel ih =>
      rw [firstFreeCopy]
      split
      · rename_i taken
        cases number with
        | zero => simp_all
        | succ number =>
            have later : isThere (parent ++ [copyName name (start + 1 + number)]) = false := by
              rwa [Nat.add_right_comm, Nat.add_assoc]
            obtain ⟨copyIndex, most, least, found⟩ := ih later (by omega)
            exact ⟨copyIndex, by omega, by omega, found⟩
      · exact ⟨start, by omega, Nat.le_refl _, rfl⟩

/-- With fewer existing paths than copy indices, a name is free or becomes the name of a free copy
whose index is not the last one. -/
theorem uniqueOutputPath_of_few {existing : Finset PathBuf} (few : existing.card < 2 ^ 32 - 1)
    (parent : PathBuf) (name : String) :
    ∃ chosen, uniqueOutputPath (fun path => decide (path ∈ existing)) (parent ++ [name]) =
        some (parent ++ [chosen]) ∧
      (chosen = name ∨
        ∃ copyIndex, 0 < copyIndex ∧ copyIndex < 2 ^ 32 - 1 ∧
          chosen = copyName name copyIndex) := by
  unfold uniqueOutputPath
  split
  · rename_i taken
    -- the name itself takes one of the existing paths, so two of the indices stay unused
    have fewer : (existing.erase (parent ++ [name])).card < 2 ^ 32 - 2 := by
      rw [Finset.card_erase_of_mem (by simpa using taken)]
      omega
    have different : Function.Injective fun number =>
        parent ++ [copyName name (1 + number)] := by
      intro first second same
      have indices := copyName_injective name (by simpa using same)
      omega
    obtain ⟨number, within, free⟩ := exists_free_number different fewer
    have free : decide (parent ++ [copyName name (1 + number)] ∈ existing) = false := by
      simpa [copyName_ne] using free
    obtain ⟨copyIndex, most, least, found⟩ :=
      firstFreeCopy_of_free (fun path => decide (path ∈ existing)) free
        (show number < 2 ^ 32 - 1 by omega)
    exact ⟨copyName name copyIndex, by simpa using found, .inr ⟨copyIndex, least, by omega, rfl⟩⟩
  · exact ⟨name, rfl, .inl rfl⟩

/-- Whatever name the peer gives and whatever exists already, a finished download goes to a free
name in the output directory: to the name itself or to a copy of it, with an index that fits 32
bits and is not the last of them. -/
theorem output_stays_in_output_dir (libraryRoot : PathBuf) (manifestFileName : String)
    (existing : Finset PathBuf) (few : existing.card < 2 ^ 32 - 1) :
    ∃ name, uniqueOutputPath (fun path => decide (path ∈ existing))
        (defaultDownloadOutputPath libraryRoot manifestFileName) =
          some (libraryRoot ++ ["output", name]) ∧
      NormalComponent name ∧ libraryRoot ++ ["output", name] ∉ existing ∧
      (name = safeOutputFileName manifestFileName ∨
        ∃ copyIndex, 0 < copyIndex ∧ copyIndex < 2 ^ 32 - 1 ∧
          name = copyName (safeOutputFileName manifestFileName) copyIndex) := by
  obtain ⟨name, chosen, origin⟩ := uniqueOutputPath_of_few few
    (defaultDownloadOutputDir libraryRoot) (safeOutputFileName manifestFileName)
  have normal : NormalComponent name := by
    have given := normalComponent_safeOutputFileName manifestFileName
    obtain rfl | ⟨copyIndex, _, _, rfl⟩ := origin
    · exact given
    · exact normalComponent_copyName given copyIndex
  have free := free_of_uniqueOutputPath chosen
  have joined : defaultDownloadOutputDir libraryRoot ++ [name] =
      libraryRoot ++ ["output", name] := by
    simp [defaultDownloadOutputDir, outputDirName]
  rw [joined] at chosen free
  exact ⟨name, chosen, normal, by simpa using free, origin⟩

/-- A name that tries to leave the directory, with its last component and the first copy taken. -/
theorem output_stays_in_output_dir_taken :
    ∃ name, uniqueOutputPath (fun path => decide (path ∈ ({["lib", "output", "a.txt"],
        ["lib", "output", "a (1).txt"]} : Finset PathBuf)))
        (defaultDownloadOutputPath ["lib"] "../../etc//a.txt/.") =
          some (["lib"] ++ ["output", name]) ∧ NormalComponent name := by
  obtain ⟨name, chosen, normal, _⟩ := output_stays_in_output_dir ["lib"] "../../etc//a.txt/."
    {["lib", "output", "a.txt"], ["lib", "output", "a (1).txt"]} (by decide)
  exact ⟨name, chosen, normal⟩

end Etle
