import Etle.Gui.Controls
import Etle.Gui.DeleteConfirmation

/-!
# The files to seed

The client keeps the files that are to be seeded, each of them once, and the one that is selected.
A file is seeded when its turn has come, and then it is no longer listed.
-/

namespace Etle

/-- The file that a message adds, if it names one. -/
def AppInput.addedSeed : AppInput → Option String
  | .addSeedPathText value => nonEmpty value
  | .addSeedFile path => if path = "" then none else some path
  | _ => none

/-- The files that effects seed. -/
def seedsOf (effects : List GuiEffect) : List String :=
  effects.filterMap fun
    | .sendCommand _ _ (.seedFile path _) => some path
    | _ => none

namespace EtleGui

/-- What each message does to the seed queue. -/
inductive SeedMove (gui : EtleGui) (message : AppInput) (next : EtleGui) : List String → Prop
  | add {path : String} (asked : message.addedSeed = some path)
      (fresh : ∀ listed ∈ gui.seedFiles, pathComponents listed ≠ pathComponents path)
      (files : next.seedFiles = gui.seedFiles ++ [path])
      (row : next.selectedSeedFile = gui.selectedSeedFile.or (some 0)) :
      SeedMove gui message next []
  | select {index : Nat} (inside : index < gui.seedFiles.length)
      (files : next.seedFiles = gui.seedFiles) (row : next.selectedSeedFile = some index) :
      SeedMove gui message next []
  | take {index : Nat} {path : String} {seeded : List String}
      (found : gui.seedFiles[index]? = some path)
      (files : next.seedFiles = gui.seedFiles.eraseIdx index)
      (row : next.selectedSeedFile = if gui.seedFiles.eraseIdx index = [] then none else
        some (min index ((gui.seedFiles.eraseIdx index).length - 1)))
      (sent : seeded = [] ∨ seeded = [path]) : SeedMove gui message next seeded
  | unselect (outside : gui.seedFiles.length ≤ gui.selectedSeedFile.getD 0)
      (listed : gui.seedFiles ≠ []) (files : next.seedFiles = gui.seedFiles)
      (row : next.selectedSeedFile = none) : SeedMove gui message next []
  | clear (files : next.seedFiles = []) (row : next.selectedSeedFile = none) :
      SeedMove gui message next []
  | keep (files : next.seedFiles = gui.seedFiles)
      (row : next.selectedSeedFile = gui.selectedSeedFile) : SeedMove gui message next []

namespace SeedMove

variable {gui next : EtleGui} {message : AppInput}

/-- The daemon leaves the queue alone. -/
theorem of_controls (same : next.controls = gui.controls) : SeedMove gui message next [] :=
  .keep (congrArg Controls.seedFiles same) (congrArg Controls.selectedSeedFile same)

theorem addSeedFile {path : String} (asked : path ≠ "" → message.addedSeed = some path) :
    SeedMove gui message (gui.addSeedFile path) [] := by
  unfold EtleGui.addSeedFile
  split
  · exact .keep rfl rfl
  · rename_i unlisted
    rw [not_or, List.any_eq_true] at unlisted
    refine .add (asked unlisted.1) (fun listed member same => ?_) rfl rfl
    exact unlisted.2 ⟨listed, member, by simpa using same⟩

theorem startSeedSelected :
    SeedMove gui message gui.startSeedSelected.1 (seedsOf gui.startSeedSelected.2) := by
  unfold EtleGui.startSeedSelected
  dsimp only
  split
  · exact .keep rfl rfl
  · rename_i listed
    split
    · rename_i outside
      exact .unselect (List.getElem?_eq_none_iff.mp outside) listed rfl rfl
    · rename_i path found
      have same := (gui.removeSeedFile (gui.selectedSeedFile.getD 0)).controls_startSeedPath path
      refine .take found ?_ ?_ (.inr rfl)
      · exact congrArg Controls.seedFiles same
      · exact congrArg Controls.selectedSeedFile same

end SeedMove

/-- Every message moves the seed queue in one of the listed ways. -/
theorem seedMove_of_update (gui : EtleGui) (message : AppInput) :
    SeedMove gui message (gui.update message).1 (seedsOf (gui.update message).2) := by
  cases message with
  | addSeedFile path =>
      apply SeedMove.addSeedFile
      exact fun given => if_neg given
  | addSeedPathText value =>
      dsimp only [update, addSeedPathText]
      split
      · exact .keep rfl rfl
      · rename_i given
        apply SeedMove.addSeedFile
        exact fun _ => if_neg given
  | selectSeedFile index =>
      dsimp only [update]
      split
      · rename_i inside
        exact .select inside rfl rfl
      · exact .keep rfl rfl
  | removeSelectedSeedFile =>
      dsimp only [update, removeSelectedSeedFile]
      split
      · exact .keep rfl rfl
      · split
        · rename_i inside
          exact .take (List.getElem?_eq_getElem inside) rfl rfl (.inl rfl)
        · exact .keep rfl rfl
  | clearSeedFiles => exact .clear rfl rfl
  | startSeedSelected => exact .startSeedSelected
  | ipcEvent generation event =>
      dsimp only [update]
      split
      · exact .of_controls (gui.controls_applyIpcEvent event)
      · exact .keep rfl rfl
  | ipcResponse socketPath kind result =>
      dsimp only [update]
      split
      · split
        · have same : ({ gui with refreshInflight := false }.applyIpcResponse kind
              result).controls = { gui with refreshInflight := false }.controls :=
            controls_applyIpcResponse _ result fun _ => rfl
          exact .keep (congrArg Controls.seedFiles same) (congrArg Controls.selectedSeedFile same)
        · rename_i other
          exact .of_controls (gui.controls_applyIpcResponse result fun same => absurd same other)
      · exact .keep rfl rfl
  | startDownloadFromForm shareId peers output authPsk discoveryMulticast =>
      have same :=
        gui.controls_startDownloadFromForm shareId peers output authPsk discoveryMulticast
      have unseeded : seedsOf (gui.startDownloadFromForm shareId peers output authPsk
          discoveryMulticast).2 = [] := by
        unfold startDownloadFromForm
        split
        · rfl
        · rename_i built
          obtain ⟨request, rfl | rfl⟩ := request_of_buildDownloadCommandFrom built <;> rfl
      exact unseeded ▸ .of_controls same
  | applySocketText value | applySettings socketPath authPsk =>
      dsimp only [update, applySocket]
      split
      · exact .keep rfl rfl
      · split <;> exact .keep rfl rfl
  | connect =>
      dsimp only [update, connect]
      split <;> exact .keep rfl rfl
  | refresh =>
      dsimp only [update, spawnRefresh]
      split <;> exact .keep rfl rfl
  | autoRefreshTick elapsedSecs =>
      dsimp only [update, spawnRefresh]
      split
      · split <;> exact .keep rfl rfl
      · exact .keep rfl rfl
  | startWatch =>
      dsimp only [update, startWatch]
      split
      · exact .keep rfl rfl
      · split <;> exact .keep rfl rfl
  | ipcWatchStopped generation error =>
      dsimp only [update]
      split <;> exact .keep rfl rfl
  | selectShare index =>
      dsimp only [update]
      split <;> exact .keep rfl rfl
  | deleteSelectedShare =>
      dsimp only [update, requestDeleteSelectedShare]
      split <;> exact .keep rfl rfl
  | confirmDeleteSelectedShare =>
      dsimp only [update, confirmDeleteSelectedShare]
      split
      · exact .keep rfl rfl
      · split
        · dsimp only [requestDeleteSelectedShare]
          split <;> exact .keep rfl rfl
        · exact .keep rfl rfl
  | cancelDeleteShare =>
      dsimp only [update, cancelDeleteShare]
      split <;> exact .keep rfl rfl
  | browseSeedFiles paths =>
      have unseeded : seedsOf (gui.update (.browseSeedFiles paths)).2 = [] := by
        simp [update, seedsOf]
      exact unseeded ▸ .keep rfl rfl
  | _ => exact .keep rfl rfl

/-! ## What is listed -/

/-- No file is listed twice, and a file is selected when there is one. -/
structure SeedsListed (gui : EtleGui) : Prop where
  named : ∀ path ∈ gui.seedFiles, path ≠ ""
  distinct : gui.seedFiles.Pairwise fun left right => pathComponents left ≠ pathComponents right
  inside : ∀ index, gui.selectedSeedFile = some index → index < gui.seedFiles.length
  selected : gui.selectedSeedFile = none → gui.seedFiles = []

theorem addedSeed_ne_empty {message : AppInput} {path : String}
    (asked : message.addedSeed = some path) : path ≠ "" := by
  cases message with
  | addSeedFile =>
      simp only [AppInput.addedSeed] at asked
      grind
  | addSeedPathText value =>
      simp only [AppInput.addedSeed, nonEmpty] at asked
      grind
  | _ => cases asked

theorem SeedsListed.step {gui next : EtleGui} {message : AppInput} {seeded : List String}
    (listed : gui.SeedsListed) (move : SeedMove gui message next seeded) : next.SeedsListed := by
  cases move with
  | add asked fresh files row =>
      refine ⟨?_, ?_, ?_, ?_⟩
      · rw [files, List.forall_mem_append, List.forall_mem_singleton]
        exact ⟨listed.named, addedSeed_ne_empty asked⟩
      · rw [files, List.pairwise_append]
        refine ⟨listed.distinct, List.pairwise_singleton _ _, ?_⟩
        intro path member other last
        rw [List.mem_singleton.mp last]
        exact fresh path member
      · intro index chosen
        rw [files, List.length_append, List.length_singleton]
        rw [row] at chosen
        cases before : gui.selectedSeedFile with
        | none =>
            obtain rfl : 0 = index := by simpa [before] using chosen
            omega
        | some old =>
            obtain rfl : old = index := by simpa [before] using chosen
            exact Nat.lt_succ_of_lt (listed.inside old before)
      · intro nothing
        rw [row] at nothing
        exact absurd nothing (by simp)
  | select inside files row =>
      rw [← files] at inside
      refine ⟨files ▸ listed.named, files ▸ listed.distinct, ?_, ?_⟩
      · intro index chosen
        obtain rfl := Option.some.inj (row.symm.trans chosen)
        exact inside
      · intro nothing
        exact absurd (row.symm.trans nothing) nofun
  | take found files row sent =>
      refine ⟨?_, ?_, ?_, ?_⟩
      · intro path member
        rw [files] at member
        exact listed.named path (List.mem_of_mem_eraseIdx member)
      · rw [files]
        exact listed.distinct.sublist (List.eraseIdx_sublist ..)
      · intro index chosen
        rw [row] at chosen
        rw [files]
        split at chosen
        · cases chosen
        · rename_i more
          have some_left := List.length_pos_iff.mpr more
          have chosen := Option.some.inj chosen
          omega
      · intro nothing
        rw [row] at nothing
        rw [files]
        split at nothing
        · assumption
        · cases nothing
  | unselect outside some_listed files row =>
      exfalso
      have some_left := List.length_pos_iff.mpr some_listed
      cases chosen : gui.selectedSeedFile with
      | none => exact some_listed (listed.selected chosen)
      | some index =>
          have inside := listed.inside index chosen
          rw [chosen, Option.getD_some] at outside
          omega
  | clear files row =>
      refine ⟨?_, ?_, ?_, fun _ => files⟩
      · simp [files]
      · simp [files]
      · simp [row]
  | keep files row =>
      refine ⟨files ▸ listed.named, files ▸ listed.distinct, ?_, ?_⟩
      · rw [files, row]
        exact listed.inside
      · rw [files, row]
        exact listed.selected

theorem seedsListed_new (init : GuiInit) : (EtleGui.new init).SeedsListed := by
  refine ⟨?_, ?_, ?_, ?_⟩ <;> simp [EtleGui.new]

/-! ## What is seeded -/

/-- How many of the paths name this file. -/
def copiesOf (path : String) (paths : List String) : Nat :=
  paths.countP (pathComponents · = pathComponents path)

theorem copiesOf_append (path : String) (left right : List String) :
    copiesOf path (left ++ right) = copiesOf path left + copiesOf path right := List.countP_append

theorem copiesOf_cons (path first : String) (rest : List String) :
    copiesOf path (first :: rest) = copiesOf path [first] + copiesOf path rest :=
  copiesOf_append path [first] rest

/-- A file that is taken from a list was one of it. -/
theorem copiesOf_eraseIdx (path : String) {taken : String} {paths : List String} {index : Nat}
    (found : paths[index]? = some taken) :
    copiesOf path [taken] + copiesOf path (paths.eraseIdx index) = copiesOf path paths := by
  induction paths generalizing index with
  | nil => cases found
  | cons first rest ih =>
      rw [copiesOf_cons path first rest]
      cases index with
      | zero =>
          obtain rfl := Option.some.inj found
          rfl
      | succ index =>
          rw [← ih found, List.eraseIdx_cons_succ, copiesOf_cons path first]
          omega

/-- A message takes no more files from the queue and into seeding than it adds. -/
theorem SeedMove.copies {gui next : EtleGui} {message : AppInput} {seeded : List String}
    (move : SeedMove gui message next seeded) (path : String) :
    copiesOf path seeded + copiesOf path next.seedFiles ≤
      copiesOf path gui.seedFiles + copiesOf path message.addedSeed.toList := by
  cases move with
  | add asked fresh files row =>
      rw [files, asked, copiesOf_append, Option.toList_some]
      exact (Nat.zero_add _).le
  | select inside files row =>
      rw [files]
      exact Nat.le_add_right_of_le (Nat.zero_add _).le
  | take found files row sent =>
      have kept := copiesOf_eraseIdx path found
      rw [files]
      rcases sent with rfl | rfl
      · have nothing : copiesOf path [] = 0 := rfl
        omega
      · omega
  | unselect outside listed files row =>
      rw [files]
      exact Nat.le_add_right_of_le (Nat.zero_add _).le
  | clear files row =>
      rw [files]
      exact Nat.zero_le _
  | keep files row =>
      rw [files]
      exact Nat.le_add_right_of_le (Nat.zero_add _).le

/-- The files that the steps seed, and those that they add. -/
def seedsSent (steps : List (EtleGui × AppInput × EtleGui)) : List String :=
  steps.flatMap fun taken => seedsOf (taken.1.update taken.2.1).2

def seedsAdded (steps : List (EtleGui × AppInput × EtleGui)) : List String :=
  steps.flatMap fun taken => taken.2.1.addedSeed.toList

end EtleGui

open EtleGui

/-- In every run of the client no file is listed twice, a file is selected whenever one is listed,
and each file has been seeded and is listed at most as often as it was added. -/
theorem seeds_accounted {init : GuiInit} {messages : List AppInput} {gui : EtleGui}
    (run : guiMachine.run (.new init) messages = some gui) :
    gui.SeedsListed ∧ ∀ path,
      copiesOf path (seedsSent (guiMachine.trace (.new init) messages)) +
          copiesOf path gui.seedFiles ≤
        copiesOf path (seedsAdded (guiMachine.trace (.new init) messages)) := by
  have preserved (before : EtleGui) (message : AppInput) (next : EtleGui)
      (steps : List (EtleGui × AppInput × EtleGui))
      (holds : before.SeedsListed ∧ ∀ path,
        copiesOf path (seedsSent steps) + copiesOf path before.seedFiles ≤
          copiesOf path (seedsAdded steps))
      (step : guiMachine.step before message = some next) :
      next.SeedsListed ∧ ∀ path,
        copiesOf path (seedsSent (steps ++ [(before, message, next)])) +
            copiesOf path next.seedFiles ≤
          copiesOf path (seedsAdded (steps ++ [(before, message, next)])) := by
    obtain rfl : (before.update message).1 = next := Option.some.inj step
    have move := before.seedMove_of_update message
    refine ⟨holds.1.step move, fun path => ?_⟩
    have counted := holds.2 path
    have moved := move.copies path
    rw [seedsSent, List.flatMap_append, List.flatMap_singleton, copiesOf_append, ← seedsSent,
      seedsAdded, List.flatMap_append, List.flatMap_singleton, copiesOf_append, ← seedsAdded]
    dsimp only
    omega
  have initial : (EtleGui.new init).SeedsListed ∧ ∀ path,
      copiesOf path (seedsSent []) + copiesOf path (EtleGui.new init).seedFiles ≤
        copiesOf path (seedsAdded []) :=
    ⟨seedsListed_new init, fun path => le_rfl⟩
  exact Machine.invariant_of_trace preserved initial run

/-- A file that is added twice and seeded once. -/
theorem seeds_accounted_twice :
    ∃ gui, guiMachine.run startedGui
        [.addSeedFile "notes", .addSeedPathText " notes ", .startSeedSelected] = some gui ∧
      gui.SeedsListed ∧ ∀ path,
        copiesOf path (seedsSent (guiMachine.trace startedGui
            [.addSeedFile "notes", .addSeedPathText " notes ", .startSeedSelected])) +
            copiesOf path gui.seedFiles ≤
          copiesOf path (seedsAdded (guiMachine.trace startedGui
            [.addSeedFile "notes", .addSeedPathText " notes ", .startSeedSelected])) :=
  ⟨_, rfl, seeds_accounted rfl⟩

end Etle
