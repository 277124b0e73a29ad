import Etle.Crypto.Transparent
import Etle.Foundations.FileSystem
import Etle.Foundations.Machine
import Etle.Ipc.Output

/-!
# Downloads side by side

Each download that a client queues runs as a task of its own.  Reconstruction opens the temporary
output, writes the decrypted blocks, checks the hash of what it wrote and renames the file.  All
downloads without an output of their own use one temporary output, and their steps interleave in
any order.
-/

namespace Etle

/-- A download without an output of its own: the file it is to produce, and what its attempts at
reconstruction write. -/
structure DownloadJob where
  fileName : String
  /-- The bytes of the share. -/
  content : Bytes
  /-- For each attempt, the blocks in the order in which they reach the file. -/
  attempts : List (List Bytes)

/-- Where a download is. -/
inductive JobPhase where
  /-- No attempt at reconstruction is under way. -/
  | downloading (attempts : List (List Bytes))
  /-- The temporary output is open, with what was written through this handle. -/
  | writing (node : Nat) (written : Bytes) (blocks : List Bytes) (attempts : List (List Bytes))
  /-- The hash of what was written is the one of the manifest. -/
  | reconstructed (attempts : List (List Bytes))
  /-- The final name is chosen. -/
  | moving (output : PathBuf)
  | completed (output : PathBuf)
  | failed
  deriving DecidableEq

/-- The download has opened the temporary output and neither renamed it nor failed. -/
def JobPhase.usesOutput : JobPhase → Bool
  | .writing _ _ _ _ | .reconstructed _ | .moving _ => true
  | .downloading _ | .completed _ | .failed => false

/-- The file steps of a download. -/
inductive JobAction where
  | create
  | write
  | verify
  | abandon
  | choose
  | rename
  deriving DecidableEq

/-- The files and all downloads of a daemon. -/
structure JobsState (ι : Type) where
  files : FileSystem PathBuf
  phases : ι → JobPhase

section

variable {ι : Type} [DecidableEq ι] (prims : Primitives) (libraryRoot : PathBuf) (processId : Nat)
  (jobs : ι → DownloadJob)

/-- One file step of one download.  An attempt may be abandoned for any reason until its file is
renamed; a download that has no attempt left has failed. -/
def jobStep (state : JobsState ι) (job : ι) : JobAction → Option (JobsState ι)
  | .create =>
      match state.phases job with
      | .downloading (blocks :: later) =>
          let opened := state.files.create (temporaryDownloadOutputPath libraryRoot processId)
          some {
            files := opened.1
            phases := Function.update state.phases job (.writing opened.2 [] blocks later) }
      | _ => none
  | .write =>
      match state.phases job with
      | .writing node written (block :: blocks) later =>
          some {
            files := state.files.writeAt node written.length block
            phases := Function.update state.phases job
              (.writing node (written ++ block) blocks later) }
      | _ => none
  | .verify =>
      match state.phases job with
      | .writing _ written [] later =>
          if hashFileId prims written = hashFileId prims (jobs job).content then
            some { state with phases := Function.update state.phases job (.reconstructed later) }
          else
            some { state with phases := Function.update state.phases job (.downloading later) }
      | _ => none
  | .abandon =>
      match state.phases job with
      | .writing _ _ _ later | .reconstructed later =>
          some { state with phases := Function.update state.phases job (.downloading later) }
      | .downloading [] =>
          some { state with phases := Function.update state.phases job .failed }
      | _ => none
  | .choose =>
      match state.phases job with
      | .reconstructed _ => do
          let output ← uniqueOutputPath state.files.isThere
            (defaultDownloadOutputPath libraryRoot (jobs job).fileName)
          some { state with phases := Function.update state.phases job (.moving output) }
      | _ => none
  | .rename =>
      match state.phases job with
      | .moving output =>
          match state.files.rename (temporaryDownloadOutputPath libraryRoot processId) output with
          | none => some { state with phases := Function.update state.phases job .failed }
          | some files =>
              some {
                files
                phases := Function.update state.phases job (.completed output) }
      | _ => none

/-- The downloads of a daemon under every schedule. -/
def downloadJobs : Machine (JobsState ι) (ι × JobAction) where
  step state event := jobStep prims libraryRoot processId jobs state event.1 event.2

/-- No download has come to its output yet. -/
def JobsState.initial (files : FileSystem PathBuf) : JobsState ι where
  files := files
  phases job := .downloading (jobs job).attempts

/-- Every download that has answered has its own bytes in the output it named. -/
def OwnOutputs (state : JobsState ι) : Prop :=
  ∀ job output, state.phases job = .completed output →
    state.files.fileAt output = some (jobs job).content

/-- No download opens the temporary output while another one uses it. -/
def OpensAlone (state : JobsState ι) (event : ι × JobAction) : Prop :=
  event.2 = .create → ∀ other, other ≠ event.1 → (state.phases other).usesOutput = false

/-- What one file step can do. -/
inductive JobMove (state : JobsState ι) (job : ι) : JobAction → JobsState ι → Prop where
  | create {blocks : List Bytes} {later : List (List Bytes)}
      (waiting : state.phases job = .downloading (blocks :: later)) :
      JobMove state job .create
        { files := (state.files.create (temporaryDownloadOutputPath libraryRoot processId)).1
          phases := Function.update state.phases job
            (.writing (state.files.create (temporaryDownloadOutputPath libraryRoot processId)).2 []
              blocks later) }
  | write {node : Nat} {written block : Bytes} {blocks : List Bytes} {later : List (List Bytes)}
      (writing : state.phases job = .writing node written (block :: blocks) later) :
      JobMove state job .write
        { files := state.files.writeAt node written.length block
          phases := Function.update state.phases job
            (.writing node (written ++ block) blocks later) }
  | verified {node : Nat} {written : Bytes} {later : List (List Bytes)}
      (writing : state.phases job = .writing node written [] later)
      (hash : hashFileId prims written = hashFileId prims (jobs job).content) :
      JobMove state job .verify
        { state with phases := Function.update state.phases job (.reconstructed later) }
  | stops {action : JobAction} {phase : JobPhase} (unused : phase.usesOutput = false)
      (unfinished : ∀ output, phase ≠ .completed output) :
      JobMove state job action { state with phases := Function.update state.phases job phase }
  | choose {attempts : List (List Bytes)} {output : PathBuf}
      (ready : state.phases job = .reconstructed attempts)
      (unique : uniqueOutputPath state.files.isThere
        (defaultDownloadOutputPath libraryRoot (jobs job).fileName) = some output) :
      JobMove state job .choose
        { state with phases := Function.update state.phases job (.moving output) }
  | renamed {output : PathBuf} {files : FileSystem PathBuf}
      (moving : state.phases job = .moving output)
      (moved : state.files.rename (temporaryDownloadOutputPath libraryRoot processId) output =
        some files) :
      JobMove state job .rename
        { files, phases := Function.update state.phases job (.completed output) }

end

section

variable {ι : Type} {libraryRoot : PathBuf} {processId : Nat} {jobs : ι → DownloadJob}

/-- Where a download stands with the files. -/
def PhaseKept (temporary : PathBuf) (files : FileSystem PathBuf) (content : Bytes) :
    JobPhase → Prop
  | .downloading _ | .failed => True
  | .writing node written _ _ =>
      files.entries temporary = some node ∧ files.contents node = written
  | .reconstructed _ => files.fileAt temporary = some content
  | .moving output => files.fileAt temporary = some content ∧ files.isThere output = false
  | .completed output => output ≠ temporary ∧ files.fileAt output = some content

/-- At most one download uses the temporary output, and every download stands well. -/
structure JobsState.Kept (libraryRoot : PathBuf) (processId : Nat) (jobs : ι → DownloadJob)
    (state : JobsState ι) : Prop where
  alone : ∀ job other, (state.phases job).usesOutput = true →
    (state.phases other).usesOutput = true → job = other
  phases : ∀ job, PhaseKept (temporaryDownloadOutputPath libraryRoot processId) state.files
    (jobs job).content (state.phases job)

/-- A download that does not use the temporary output stands as well after another has changed
only this output. -/
theorem phaseKept_of_elsewhere {temporary : PathBuf} {before after : FileSystem PathBuf}
    {content : Bytes} {phase : JobPhase} (unused : phase.usesOutput = false)
    (elsewhere : ∀ output, output ≠ temporary → (before.fileAt output).isSome →
      after.fileAt output = before.fileAt output)
    (kept : PhaseKept temporary before content phase) :
    PhaseKept temporary after content phase := by
  cases phase with
  | downloading _ | failed => trivial
  | writing _ _ _ _ | reconstructed _ | moving _ => cases unused
  | completed output =>
      refine ⟨kept.1, ?_⟩
      rw [elsewhere output kept.1 (by simp [kept.2]), kept.2]

theorem not_isThere_iff {files : FileSystem PathBuf} {path : PathBuf} :
    files.isThere path = false ↔ files.fileAt path = none := by
  simp [FileSystem.isThere, FileSystem.fileAt]

/-- While one download uses the temporary output no other one does. -/
theorem JobsState.Kept.others_unused {state : JobsState ι} {job : ι} {phase : JobPhase}
    (kept : state.Kept libraryRoot processId jobs) (current : state.phases job = phase)
    (uses : phase.usesOutput = true) (other : ι) (away : other ≠ job) :
    (state.phases other).usesOutput = false := by
  by_contra used
  exact away (kept.alone other job (by simpa using used) (current ▸ uses))

end

section

variable {ι : Type} [DecidableEq ι] {prims : Primitives} {libraryRoot : PathBuf} {processId : Nat}
  {jobs : ι → DownloadJob}

theorem jobMove_of_step {state next : JobsState ι} {job : ι} {action : JobAction}
    (step : jobStep prims libraryRoot processId jobs state job action = some next) :
    JobMove prims libraryRoot processId jobs state job action next := by
  cases action with
  | create =>
      simp only [jobStep] at step
      split at step
      · rename_i waiting
        obtain rfl := by simpa using step
        exact .create waiting
      · cases step
  | write =>
      simp only [jobStep] at step
      split at step
      · rename_i writing
        obtain rfl := by simpa using step
        exact .write writing
      · cases step
  | verify =>
      simp only [jobStep] at step
      split at step
      · rename_i writing
        split at step
        · rename_i hash
          obtain rfl := by simpa using step
          exact .verified writing hash
        · obtain rfl := by simpa using step
          exact .stops rfl (by simp)
      · cases step
  | abandon =>
      simp only [jobStep] at step
      split at step
      · obtain rfl := by simpa using step
        exact .stops rfl (by simp)
      · obtain rfl := by simpa using step
        exact .stops rfl (by simp)
      · obtain rfl := by simpa using step
        exact .stops rfl (by simp)
      · cases step
  | choose =>
      simp only [jobStep] at step
      split at step
      · rename_i ready
        obtain ⟨output, unique, step⟩ := Option.bind_eq_some_iff.mp step
        obtain rfl := by simpa using step
        exact .choose ready unique
      · cases step
  | rename =>
      simp only [jobStep] at step
      split at step
      · rename_i moving
        split at step
        · obtain rfl := by simpa using step
          exact .stops rfl (by simp)
        · rename_i moved
          obtain rfl := by simpa using step
          exact .renamed moving moved
      · cases step

/-- After a step of one download the others stand as before, if it changed only the temporary output
or a free name. -/
theorem kept_of_update {state : JobsState ι} {job : ι} {files : FileSystem PathBuf}
    {phase : JobPhase} (kept : state.Kept libraryRoot processId jobs)
    (others : ∀ other, other ≠ job → (state.phases other).usesOutput = false ∨
      (phase.usesOutput = false ∧ files = state.files))
    (elsewhere : ∀ output, output ≠ temporaryDownloadOutputPath libraryRoot processId →
      (state.files.fileAt output).isSome → files.fileAt output = state.files.fileAt output)
    (own : PhaseKept (temporaryDownloadOutputPath libraryRoot processId) files
      (jobs job).content phase) :
    JobsState.Kept libraryRoot processId jobs
      { files, phases := Function.update state.phases job phase } := by
  refine ⟨?_, ?_⟩
  · intro first second first_uses second_uses
    dsimp only at first_uses second_uses
    by_cases first_same : first = job
    · by_cases second_same : second = job
      · rw [first_same, second_same]
      · rw [first_same, Function.update_self] at first_uses
        rw [Function.update_of_ne second_same] at second_uses
        obtain unused | ⟨unused, -⟩ := others second second_same
        · simp [unused] at second_uses
        · simp [unused] at first_uses
    · rw [Function.update_of_ne first_same] at first_uses
      by_cases second_same : second = job
      · rw [second_same, Function.update_self] at second_uses
        obtain unused | ⟨unused, -⟩ := others first first_same
        · simp [unused] at first_uses
        · simp [unused] at second_uses
      · rw [Function.update_of_ne second_same] at second_uses
        exact kept.alone first second first_uses second_uses
  · intro other
    dsimp only
    by_cases same : other = job
    · subst same
      rw [Function.update_self]
      exact own
    · rw [Function.update_of_ne same]
      obtain unused | ⟨-, rfl⟩ := others other same
      · exact phaseKept_of_elsewhere unused elsewhere (kept.phases other)
      · exact kept.phases other

/-- Every step keeps the downloads apart, as long as no download opens the temporary output while
another one uses it. -/
theorem kept_of_step (intact : ∀ job, prims.NoSecondPreimage (jobs job).content)
    (state : JobsState ι) (event : ι × JobAction) (next : JobsState ι)
    (kept : state.Kept libraryRoot processId jobs) (alone : OpensAlone state event)
    (step : (downloadJobs prims libraryRoot processId jobs).step state event = some next) :
    next.Kept libraryRoot processId jobs := by
  obtain ⟨job, action⟩ := event
  have standing := kept.phases job
  cases jobMove_of_step step with
  | create waiting =>
      refine kept_of_update kept (fun other away => .inl (alone rfl other away)) ?_
        (FileSystem.entries_create _ _)
      intro output away _
      exact FileSystem.fileAt_create_of_ne away
  | @write node written block blocks later writing =>
      rw [writing] at standing
      have unused := kept.others_unused writing rfl
      refine kept_of_update kept (fun other away => .inl (unused other away)) ?_
        ⟨standing.1, FileSystem.contents_writeAt standing.2 block⟩
      intro output away _
      exact FileSystem.fileAt_setContent_of_ne standing.1 away _
  | @verified node written later writing hash =>
      rw [writing] at standing
      have unused := kept.others_unused writing rfl
      refine kept_of_update kept (fun other away => .inl (unused other away)) (by simp) ?_
      have same : written = (jobs job).content :=
        intact job written (by simpa [hashFileId] using hash)
      exact FileSystem.fileAt_eq_some.mpr ⟨node, standing.1, same ▸ standing.2⟩
  | @stops action phase stopped unfinished =>
      refine kept_of_update kept (fun _ _ => .inr ⟨stopped, rfl⟩) (by simp) ?_
      cases phase with
      | downloading _ | failed => trivial
      | writing _ _ _ _ | reconstructed _ | moving _ => cases stopped
      | completed output => exact absurd rfl (unfinished output)
  | choose ready unique =>
      rw [ready] at standing
      have unused := kept.others_unused ready rfl
      exact kept_of_update kept (fun other away => .inl (unused other away)) (by simp)
        ⟨standing, free_of_uniqueOutputPath unique⟩
  | @renamed output files moving moved =>
      rw [moving] at standing
      obtain ⟨whole, free⟩ := standing
      have unused := kept.others_unused moving rfl
      rw [not_isThere_iff] at free
      have apart : temporaryDownloadOutputPath libraryRoot processId ≠ output := by
        rintro rfl
        simp [free] at whole
      obtain ⟨at_output, elsewhere⟩ := FileSystem.fileAt_rename moved apart
      refine kept_of_update kept (fun other away => .inl (unused other away)) ?_
        ⟨apart.symm, at_output.trans whole⟩
      intro other away present
      refine elsewhere other away ?_
      rintro rfl
      simp [free] at present

/-- As long as no download opens the temporary output while another one uses it, every download that
answers has its own bytes in its output. -/
theorem ownOutputs_of_opensAlone (intact : ∀ job, prims.NoSecondPreimage (jobs job).content)
    {files : FileSystem PathBuf} {events : List (ι × JobAction)} {final : JobsState ι}
    (alone : (downloadJobs prims libraryRoot processId jobs).Obeys OpensAlone
      (.initial jobs files) events)
    (run : (downloadJobs prims libraryRoot processId jobs).run (.initial jobs files) events =
      some final) : OwnOutputs jobs final := by
  have kept := Machine.invariant_of_obeys (kept_of_step intact)
    (show (JobsState.initial jobs files).Kept libraryRoot processId jobs from
      ⟨by simp [JobsState.initial, JobPhase.usesOutput], fun _ => trivial⟩) alone run
  intro job output completed
  have standing := kept.phases job
  rw [completed] at standing
  exact standing.2

end

/-- Two downloads of one byte each. -/
def twoJobs : Bool → DownloadJob
  | true => { fileName := "one.bin", content := [1], attempts := [[[1]]] }
  | false => { fileName := "two.bin", content := [2], attempts := [[[2]]] }

/-- The first download runs to its end, then the second one opens the temporary output. -/
def oneAfterTheOther : List (Bool × JobAction) :=
  [(true, .create), (true, .write), (true, .verify), (true, .choose), (true, .rename),
    (false, .create)]

/-- The second download opens the temporary output before the first one has renamed it. -/
def oneOverTheOther : List (Bool × JobAction) :=
  [(true, .create), (true, .write), (false, .create), (false, .write), (true, .verify),
    (true, .choose), (true, .rename)]

/-- One after the other, the first download answers with its own byte. -/
theorem ownOutputs_one_after_the_other :
    ∃ final, (downloadJobs transparentPrimitives ["library"] 1 twoJobs).run
        (.initial twoJobs .empty) oneAfterTheOther = some final ∧
      final.phases true = .completed ["library", "output", "one.bin"] ∧
      OwnOutputs twoJobs final := by
  have outcome : ((downloadJobs transparentPrimitives ["library"] 1 twoJobs).run
      (.initial twoJobs .empty) oneAfterTheOther).map (fun final => final.phases true) =
        some (.completed ["library", "output", "one.bin"]) := by decide +kernel
  obtain ⟨final, run, completed⟩ := Option.map_eq_some_iff.mp outcome
  refine ⟨final, run, completed, ownOutputs_of_opensAlone ?_ ?_ run⟩
  · intro job
    cases job <;> exact noSecondPreimage_transparent (by decide)
  · refine Machine.obeys_cons (fun _ other _ => by cases other <;> rfl) rfl ?_
    refine Machine.obeys_cons (by simp [OpensAlone]) rfl ?_
    refine Machine.obeys_cons (by simp [OpensAlone]) rfl ?_
    refine Machine.obeys_cons (by simp [OpensAlone]) rfl ?_
    refine Machine.obeys_cons (by simp [OpensAlone]) rfl ?_
    refine Machine.obeys_cons (fun _ other _ => by cases other <;> rfl) rfl trivial

/-- One over the other, the first download answers with the byte of the second. -/
theorem foreign_output_one_over_the_other :
    ∃ final, (downloadJobs transparentPrimitives ["library"] 1 twoJobs).run
        (.initial twoJobs .empty) oneOverTheOther = some final ∧ ¬OwnOutputs twoJobs final := by
  have outcome : ((downloadJobs transparentPrimitives ["library"] 1 twoJobs).run
      (.initial twoJobs .empty) oneOverTheOther).map (fun final =>
        (final.phases true, final.files.fileAt ["library", "output", "one.bin"])) =
        some (.completed ["library", "output", "one.bin"], some [2]) := by decide +kernel
  obtain ⟨final, run, projected⟩ := Option.map_eq_some_iff.mp outcome
  obtain ⟨completed, stored⟩ := Prod.mk.inj projected
  refine ⟨final, run, fun own => ?_⟩
  have foreign := own true _ completed
  rw [stored] at foreign
  cases foreign

end Etle
