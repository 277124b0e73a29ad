import Etle.Transfer.ParallelScheduling
import Etle.Transfer.Progress

/-!
# Progress reports of parallel workers

A worker learns its number of completed chunks under the lock of the completed set and reports it
afterwards.  Reports can overtake each other, and the bytes of an overtaken report are not counted;
what an earlier job has left in the table is counted again.
-/

namespace Etle

open Std (TreeSet)

/-- A number of completed chunks and the bytes of the chunk that was completed. -/
structure ChunkReport where
  done : Nat
  bytes : Nat
  deriving DecidableEq

/-- The worker that takes a step. -/
def ParallelEvent.worker {peerCount : Nat} : ParallelEvent peerCount → Fin peerCount
  | .start worker _ | .lock worker | .pop worker | .examine worker | .request worker _ _
  | .receive worker _ | .store worker _ | .complete worker | .release worker | .finish worker =>
      worker

/-- A parallel download with the table of progress states and the events it has published. -/
structure ReportedDownload (peerCount : Nat) where
  download : ParallelDownload peerCount
  /-- The length of the chunk that each worker has stored last. -/
  chunkLen : Fin peerCount → Nat
  /-- What each worker has learned and not yet reported. -/
  pending : Fin peerCount → Option ChunkReport
  states : ProgressTable
  published : List IpcEvent

/-- The steps of the workers, their reports with the time and the active job, and what other
reports do elsewhere in the table. -/
inductive ReportEvent (peerCount : Nat) where
  | download (event : ParallelEvent peerCount)
  | report (worker : Fin peerCount) (now : Nat) (jobId : Option String)
  | elsewhere (key : ProgressKey) (state : Option ProgressState)

section Steps

variable (prims : Primitives) (manifest : Manifest) (outputDir : Option PathBuf) {peerCount : Nat}
  (available : Fin peerCount → TreeSet UInt32) (shareId : ShareId) (logLevel : TransferLogLevel)
  (rate : UInt64 → Nat → UInt64)

/-- The length of the chunk that a worker is about to store, if it succeeds. -/
def storedLength (state : ParallelDownload peerCount) (worker : Fin peerCount) (elapsed : Bool) :
    Nat :=
  match state.workers worker with
  | .received entry temp frame =>
      match (storeReceivedChunk prims outputDir entry temp elapsed frame).run state.session with
      | .ok length _ => length
      | .error _ _ => 0
  | _ => 0

/-- The key of the workers' reports. -/
def parallelKey : ProgressKey :=
  shareKey shareId "peer" "parallel received+verified" manifest.chunks.length

/-- A step of a worker that has nothing to report.  A store tells it the length of its chunk, and
completing an index the number of completed chunks. -/
def workerStep (state : ReportedDownload peerCount) (event : ParallelEvent peerCount) :
    Option (ReportedDownload peerCount) :=
  if (state.pending event.worker).isSome then
    none
  else
    ((parallelDownloadWorkers prims manifest outputDir available).step state.download event).map
      fun download =>
        match event with
        | .store worker elapsed =>
            let length := storedLength prims outputDir state.download worker elapsed
            { state with download, chunkLen := Function.update state.chunkLen worker length }
        | .complete worker =>
            let report := { done := download.completed.size, bytes := state.chunkLen worker }
            { state with download, pending := Function.update state.pending worker (some report) }
        | _ => { state with download }

/-- Report what a worker has learned. -/
def reportChunk (state : ReportedDownload peerCount) (worker : Fin peerCount) (now : Nat)
    (jobId : Option String) : Option (ReportedDownload peerCount) :=
  (state.pending worker).map fun report =>
    let (events, states) := forShare rate shareId "peer" "parallel received+verified" logLevel
      report.done manifest.chunks.length report.bytes now jobId state.states
    { state with
      pending := Function.update state.pending worker none
      states
      published := state.published ++ events }

/-- The workers with their reports as a machine. -/
def reportedDownload : Machine (ReportedDownload peerCount) (ReportEvent peerCount) where
  step state
    | .download event => workerStep prims manifest outputDir available state event
    | .report worker now jobId => reportChunk manifest shareId logLevel rate state worker now jobId
    | .elsewhere key entry =>
        if key = parallelKey manifest shareId then
          none
        else
          some { state with states := Function.update state.states key entry }

/-- A job that finds a table and has not started. -/
def ReportedDownload.initial (completed : TreeSet UInt32) (session : LibrarySession)
    (peerCount : Nat) (states : ProgressTable) : ReportedDownload peerCount where
  download := .initial manifest completed session peerCount
  chunkLen := fun _ => 0
  pending := fun _ => none
  states := states
  published := []

end Steps

/-! ## Counting -/

/-- The bytes of the reports whose number of chunks is above that of every report before them. -/
def countedBytes (last : Nat) : List ChunkReport → Nat
  | [] => 0
  | report :: reports =>
      if last < report.done then report.bytes + countedBytes report.done reports
      else countedBytes last reports

/-- The bytes of the other reports. -/
def overtakenBytes (last : Nat) : List ChunkReport → Nat
  | [] => 0
  | report :: reports =>
      if last < report.done then overtakenBytes report.done reports
      else report.bytes + overtakenBytes last reports

/-- The bytes of all reports. -/
def reportedBytes (reports : List ChunkReport) : Nat := (reports.map (·.bytes)).sum

/-- The largest number of chunks of the reports and of what was there before. -/
def lastOf (last : Nat) (reports : List ChunkReport) : Nat :=
  reports.foldl (fun last report => max last report.done) last

theorem countedBytes_add_overtakenBytes (last : Nat) (reports : List ChunkReport) :
    countedBytes last reports + overtakenBytes last reports = reportedBytes reports := by
  induction reports generalizing last with
  | nil => rfl
  | cons report reports ih =>
      have rest := ih report.done
      have same := ih last
      simp only [countedBytes, overtakenBytes, reportedBytes, List.map_cons, List.sum_cons] at *
      split <;> omega

theorem countedBytes_append (last : Nat) (front back : List ChunkReport) :
    countedBytes last (front ++ back) =
      countedBytes last front + countedBytes (lastOf last front) back := by
  induction front generalizing last with
  | nil => simp [countedBytes, lastOf]
  | cons report front ih =>
      simp only [List.cons_append, countedBytes, lastOf, List.foldl_cons]
      split
      · rename_i above
        rw [ih, Nat.add_assoc, max_eq_right above.le]
        rfl
      · rename_i below
        rw [ih, max_eq_left (Nat.not_lt.mp below)]
        rfl

/-- Reports that are not above what was there before do not count. -/
theorem countedBytes_eq_zero {last : Nat} {reports : List ChunkReport}
    (below : ∀ report ∈ reports, report.done ≤ last) : countedBytes last reports = 0 := by
  induction reports with
  | nil => rfl
  | cons report reports ih =>
      obtain ⟨first, below⟩ := List.forall_mem_cons.mp below
      rw [countedBytes, if_neg (Nat.not_lt.mpr first)]
      exact ih below

theorem lastOf_concat (last : Nat) (reports : List ChunkReport) (report : ChunkReport) :
    lastOf last (reports ++ [report]) = max (lastOf last reports) report.done := by
  simp [lastOf]

/-! ## Steps -/

section

variable {prims : Primitives} {manifest : Manifest} {outputDir : Option PathBuf} {peerCount : Nat}
  {available : Fin peerCount → TreeSet UInt32} {shareId : ShareId} {logLevel : TransferLogLevel}
  {rate : UInt64 → Nat → UInt64}

/-- What each step does. -/
inductive ReportMove (prims : Primitives) (manifest : Manifest) (outputDir : Option PathBuf)
    (available : Fin peerCount → TreeSet UInt32) (shareId : ShareId) (logLevel : TransferLogLevel)
    (rate : UInt64 → Nat → UInt64) (state : ReportedDownload peerCount) :
    ReportEvent peerCount → ReportedDownload peerCount → Prop
  | work {event : ParallelEvent peerCount} {download : ParallelDownload peerCount}
      {chunkLen : Fin peerCount → Nat}
      (step : (parallelDownloadWorkers prims manifest outputDir available).step state.download
        event = some download) :
      ReportMove prims manifest outputDir available shareId logLevel rate state (.download event)
        { state with download, chunkLen }
  | complete {worker : Fin peerCount} {download : ParallelDownload peerCount}
      (step : (parallelDownloadWorkers prims manifest outputDir available).step state.download
        (.complete worker) = some download) :
      ReportMove prims manifest outputDir available shareId logLevel rate state
        (.download (.complete worker))
        { state with
          download
          pending := Function.update state.pending worker
            (some { done := download.completed.size, bytes := state.chunkLen worker }) }
  | report {worker : Fin peerCount} {now : Nat} {jobId : Option String} {report : ChunkReport}
      {published : List IpcEvent} {states : ProgressTable}
      (held : state.pending worker = some report)
      (reported : forShare rate shareId "peer" "parallel received+verified" logLevel report.done
        manifest.chunks.length report.bytes now jobId state.states = (published, states)) :
      ReportMove prims manifest outputDir available shareId logLevel rate state
        (.report worker now jobId)
        { state with
          pending := Function.update state.pending worker none
          states
          published := state.published ++ published }
  | elsewhere {key : ProgressKey} {entry : Option ProgressState}
      (other : key ≠ parallelKey manifest shareId) :
      ReportMove prims manifest outputDir available shareId logLevel rate state
        (.elsewhere key entry)
        { state with states := Function.update state.states key entry }

theorem reportMove_of_step {state next : ReportedDownload peerCount}
    {event : ReportEvent peerCount}
    (step : (reportedDownload prims manifest outputDir available shareId logLevel rate).step state
      event = some next) :
    ReportMove prims manifest outputDir available shareId logLevel rate state event next := by
  cases event with
  | download event =>
      simp only [reportedDownload, workerStep] at step
      split at step
      · cases step
      · obtain ⟨download, taken, rfl⟩ := Option.map_eq_some_iff.mp step
        cases event with
        | complete worker => exact .complete taken
        | start | lock | pop | examine | request | receive | store | release | finish =>
            exact .work taken
  | report worker now jobId =>
      simp only [reportedDownload, reportChunk] at step
      obtain ⟨report, held, rfl⟩ := Option.map_eq_some_iff.mp step
      exact .report held rfl
  | elsewhere key entry =>
      simp only [reportedDownload] at step
      split at step
      · cases step
      · obtain rfl := Option.some.inj step
        exact .elsewhere ‹_›

/-- The completed set never shrinks. -/
theorem size_le_of_step {state next : ParallelDownload peerCount} {event : ParallelEvent peerCount}
    (step : (parallelDownloadWorkers prims manifest outputDir available).step state event =
      some next) : state.completed.size ≤ next.completed.size := by
  cases parallelMove_of_step step with
  | complete => exact TreeSet.size_le_size_insert
  | start | startFails | lock | pop | giveUp | drop | take | unknown | rotate | request
  | requestFails | receive | receiveFails | store | storeFails | release | finish => exact le_rfl

/-! ## The number of chunks -/

/-- No number of chunks is above that of the completed ones, which are in the manifest. -/
structure ReportedDownload.Within (manifest : Manifest) (state : ReportedDownload peerCount) :
    Prop where
  known : ∀ index, index ∉ manifest.indices → state.download.places index = 0
  pending : ∀ worker report, state.pending worker = some report →
    report.done ≤ state.download.completed.size
  published : ∀ event ∈ state.published, ∀ done total bytesDone,
    event.progress = some (done, total, bytesDone) → done ≤ state.download.completed.size

theorem within_of_step (state : ReportedDownload peerCount) (event : ReportEvent peerCount)
    (next : ReportedDownload peerCount) (within : state.Within manifest)
    (step : (reportedDownload prims manifest outputDir available shareId logLevel rate).step state
      event = some next) : next.Within manifest := by
  have known_after {event : ParallelEvent peerCount} {download : ParallelDownload peerCount}
      (step : (parallelDownloadWorkers prims manifest outputDir available).step state.download
        event = some download) (index : UInt32) (foreign : index ∉ manifest.indices) :
      download.places index = 0 := by
    have none_there := within.known index foreign
    obtain same | ⟨fewer, -⟩ := places_change_of_step step index <;> omega
  cases reportMove_of_step step with
  | work taken =>
      have grown := size_le_of_step taken
      exact ⟨known_after taken,
        fun worker report held => (within.pending worker report held).trans grown,
        fun event member done total bytesDone shows =>
          (within.published event member done total bytesDone shows).trans grown⟩
  | @complete worker download taken =>
      have grown := size_le_of_step taken
      refine ⟨known_after taken, ?_, fun event member done total bytesDone shows =>
        (within.published event member done total bytesDone shows).trans grown⟩
      intro other report held
      by_cases same : other = worker
      · subst same
        obtain rfl : _ = report := by simpa using held
        exact le_rfl
      · exact (within.pending other report (by simpa [same] using held)).trans grown
  | @report worker now jobId report published states held reported =>
      refine ⟨within.known, ?_, ?_⟩
      · intro other later later_held
        by_cases same : other = worker
        · simp [same] at later_held
        · exact within.pending other later (by simpa [same] using later_held)
      · intro event member done total bytesDone shows
        obtain earlier | now_published := List.mem_append.mp member
        · exact within.published event earlier done total bytesDone shows
        · obtain ⟨counted, now_shows, -⟩ :=
            progress_forShare (by rw [reported]; exact now_published)
          obtain ⟨rfl, -⟩ := by simpa [shows] using now_shows
          exact within.pending worker report held
  | elsewhere => exact ⟨within.known, within.pending, within.published⟩

theorem mem_indices_of_completed {state : ReportedDownload peerCount}
    (within : state.Within manifest) {index : UInt32} (member : index ∈ state.download.completed) :
    index ∈ manifest.indices := by
  by_contra foreign
  have nothing := within.known index foreign
  simp [ParallelDownload.places, TreeSet.contains_iff_mem.mpr member] at nothing

theorem size_le_chunks {state : ReportedDownload peerCount} (within : state.Within manifest) :
    state.download.completed.size ≤ manifest.chunks.length := by
  have length : manifest.indices.length = manifest.chunks.length := by simp [Manifest.indices]
  rw [← length]
  exact TreeSet.size_le_length fun index member => mem_indices_of_completed within member

/-! ## The bytes -/

/-- The report that a step makes. -/
def reportOf : ReportedDownload peerCount × ReportEvent peerCount × ReportedDownload peerCount →
    Option ChunkReport
  | (before, .report worker _ _, _) => before.pending worker
  | (_, .download _, _) | (_, .elsewhere _ _, _) => none

/-- The reports of a run, in the order in which they are made. -/
def reportsOf (steps : List (ReportedDownload peerCount × ReportEvent peerCount ×
    ReportedDownload peerCount)) : List ChunkReport :=
  steps.filterMap reportOf

theorem reportsOf_concat (steps : List (ReportedDownload peerCount × ReportEvent peerCount ×
    ReportedDownload peerCount)) (step : ReportedDownload peerCount × ReportEvent peerCount ×
    ReportedDownload peerCount) :
    reportsOf (steps ++ [step]) = reportsOf steps ++ (reportOf step).toList := by
  rw [reportsOf, List.filterMap_append]
  cases made : reportOf step <;> simp [reportsOf, made]

/-- The event shows that all chunks are completed. -/
def ShowsAll (manifest : Manifest) (event : IpcEvent) (bytesDone : UInt64) : Prop :=
  event.progress = some (manifest.chunks.length, manifest.chunks.length, bytesDone)

/-- What the reports of a run leave in the table and in the events, when the job has found `before`
in the table and started from `start`. -/
structure ReportedDownload.Accounts (manifest : Manifest) (shareId : ShareId)
    (start : ParallelDownload peerCount) (before : ProgressTable)
    (state : ReportedDownload peerCount) (reports : List ChunkReport) : Prop where
  conserves : start.Conserves manifest state.download
  within : state.Within manifest
  reported : ∀ report ∈ reports, report.done ≤ state.download.completed.size
  fresh : ∀ worker report, state.pending worker = some report →
    ∀ earlier ∈ reports, earlier.done ≠ report.done
  apart : ∀ worker other report later, worker ≠ other → state.pending worker = some report →
    state.pending other = some later → report.done ≠ later.done
  counts : (∀ report ∈ reports, report.done < manifest.chunks.length) →
    state.states.last (parallelKey manifest shareId) =
      lastOf (before.last (parallelKey manifest shareId)) reports ∧
    state.states.bytes (parallelKey manifest shareId) =
      min (before.bytes (parallelKey manifest shareId) +
        countedBytes (before.last (parallelKey manifest shareId)) reports) maxBytes
  published : ∀ event ∈ state.published, ∀ bytesDone, ShowsAll manifest event bytesDone →
    ∃ front report back, reports = front ++ report :: back ∧
      report.done = manifest.chunks.length ∧
      bytesDone.toNat = min (before.bytes (parallelKey manifest shareId) +
        countedBytes (before.last (parallelKey manifest shareId)) (front ++ [report])) maxBytes

/-- A report counts what the list of reports says. -/
theorem counted_concat {states before : ProgressTable} {key : ProgressKey}
    {reports : List ChunkReport}
    (counts : states.last key = lastOf (before.last key) reports ∧
      states.bytes key =
        min (before.bytes key + countedBytes (before.last key) reports) maxBytes)
    (report : ChunkReport) :
    states.counted key report.done report.bytes =
      min (before.bytes key + countedBytes (before.last key) (reports ++ [report])) maxBytes := by
  rw [ProgressTable.counted, counts.1, counts.2, countedBytes_append]
  simp only [countedBytes]
  split <;> omega

/-- Completing an index enlarges the completed set. -/
theorem size_lt_of_complete {start state next : ParallelDownload peerCount} {worker : Fin peerCount}
    (conserves : start.Conserves manifest state)
    (step : (parallelDownloadWorkers prims manifest outputDir available).step state
      (.complete worker) = some next) : state.completed.size < next.completed.size := by
  cases parallelMove_of_step step with
  | @complete _ index completing =>
      have hand : (state.workers worker).inHand = some index := by rw [completing]; rfl
      have place := one_le_places_of_hand hand
      have once := conserves.single index
      rw [conserves.places] at place
      have absent : index ∉ state.completed := by
        intro member
        simp only [TreeSet.contains_iff_mem.mpr member, Bool.toNat_true] at place
        omega
      simp [ParallelDownload.move, TreeSet.size_insert, absent]

/-- Completing an index gives the worker a report that differs from all made and waiting ones. -/
theorem ReportedDownload.Accounts.complete {start : ParallelDownload peerCount}
    {before : ProgressTable} {state : ReportedDownload peerCount} {reports : List ChunkReport}
    {worker : Fin peerCount} {download : ParallelDownload peerCount}
    (accounts : state.Accounts manifest shareId start before reports)
    (taken : (parallelDownloadWorkers prims manifest outputDir available).step state.download
      (.complete worker) = some download)
    (within : ReportedDownload.Within manifest { state with
      download
      pending := Function.update state.pending worker
        (some { done := download.completed.size, bytes := state.chunkLen worker }) }) :
    ReportedDownload.Accounts manifest shareId start before { state with
      download
      pending := Function.update state.pending worker
        (some { done := download.completed.size, bytes := state.chunkLen worker }) } reports := by
  have larger := size_lt_of_complete accounts.conserves taken
  refine ⟨conserves_of_step _ _ _ accounts.conserves taken, within,
    fun report member => (accounts.reported report member).trans larger.le, ?_, ?_,
    accounts.counts, accounts.published⟩
  · intro other report held earlier member
    by_cases same : other = worker
    · subst same
      obtain rfl : _ = report := by simpa using held
      exact ((accounts.reported earlier member).trans_lt larger).ne
    · exact accounts.fresh other report (by simpa [same] using held) earlier member
  · intro one other report later different one_held other_held
    have smaller {worker' : Fin peerCount} {report' : ChunkReport}
        (pending : state.pending worker' = some report') :
        report'.done < download.completed.size :=
      (accounts.within.pending worker' report' pending).trans_lt larger
    by_cases first : one = worker
    · subst first
      obtain rfl : _ = report := by simpa using one_held
      exact (smaller (by simpa [Ne.symm different] using other_held)).ne'
    · have one_before : state.pending one = some report := by simpa [first] using one_held
      by_cases second : other = worker
      · subst second
        obtain rfl : _ = later := by simpa using other_held
        exact (smaller one_before).ne
      · exact accounts.apart one other report later different one_before
          (by simpa [second] using other_held)

/-- A report that is still waiting at another worker was waiting before. -/
theorem pending_of_reported {state : ReportedDownload peerCount} {worker other : Fin peerCount}
    {report : ChunkReport}
    (held : Function.update state.pending worker none other = some report) :
    other ≠ worker ∧ state.pending other = some report := by
  have different : other ≠ worker := by
    rintro rfl
    simp at held
  exact ⟨different, by simpa [different] using held⟩

/-- Making a report moves it from its worker to the end of the reports. -/
theorem ReportedDownload.Accounts.report (loud : logLevel ≠ .quiet)
    {start : ParallelDownload peerCount} {before : ProgressTable}
    {state : ReportedDownload peerCount} {reports : List ChunkReport} {worker : Fin peerCount}
    {now : Nat} {jobId : Option String} {report : ChunkReport} {published : List IpcEvent}
    {states : ProgressTable}
    (accounts : state.Accounts manifest shareId start before reports)
    (held : state.pending worker = some report)
    (reported : forShare rate shareId "peer" "parallel received+verified" logLevel report.done
      manifest.chunks.length report.bytes now jobId state.states = (published, states))
    (within : ReportedDownload.Within manifest { state with
      pending := Function.update state.pending worker none
      states
      published := state.published ++ published }) :
    ReportedDownload.Accounts manifest shareId start before { state with
      pending := Function.update state.pending worker none
      states
      published := state.published ++ published } (reports ++ [report]) := by
  have below_before (earlier : ChunkReport) (member : earlier ∈ reports)
      (reached : report.done = manifest.chunks.length) :
      earlier.done < manifest.chunks.length := by
    have most := (accounts.reported earlier member).trans (size_le_chunks accounts.within)
    have differs := accounts.fresh worker report held earlier member
    omega
  have counted (below : ∀ earlier ∈ reports, earlier.done < manifest.chunks.length) :=
    counted_concat (accounts.counts below) report
  refine ⟨accounts.conserves, within, ?_, ?_, ?_, ?_, ?_⟩
  · intro other member
    obtain earlier | here := List.mem_append.mp member
    · exact accounts.reported other earlier
    · obtain rfl := List.mem_singleton.mp here
      exact accounts.within.pending worker other held
  · intro other later later_held earlier member
    obtain ⟨different, waiting⟩ := pending_of_reported later_held
    obtain before_this | here := List.mem_append.mp member
    · exact accounts.fresh other later waiting earlier before_this
    · obtain rfl := List.mem_singleton.mp here
      exact accounts.apart worker other earlier later (Ne.symm different) held waiting
  · intro one other first second different one_held other_held
    exact accounts.apart one other first second different (pending_of_reported one_held).2
      (pending_of_reported other_held).2
  · intro below
    have here : report.done < manifest.chunks.length := below report (by simp)
    have earlier_below : ∀ earlier ∈ reports, earlier.done < manifest.chunks.length :=
      fun earlier member => below earlier (List.mem_append_left _ member)
    have after : states = _ := (congrArg Prod.snd reported).symm
    simp only [after]
    constructor
    · rw [lastOf_concat, ← (accounts.counts earlier_below).1]
      exact last_forShare loud here
    · rw [← counted earlier_below]
      exact bytes_forShare loud here
  · intro event member bytesDone shows
    obtain old | new := List.mem_append.mp member
    · obtain ⟨front, other, back, split, reached, bytes⟩ :=
        accounts.published event old bytesDone shows
      exact ⟨front, other, back ++ [report], by simp [split], reached, bytes⟩
    · obtain ⟨shown, progress, bytes⟩ := progress_forShare (by rw [reported]; exact new)
      obtain ⟨reached, rfl⟩ : report.done = manifest.chunks.length ∧ shown = bytesDone := by
        simpa [eq_comm] using progress.symm.trans shows
      refine ⟨reports, report, [], by simp, reached, ?_⟩
      rw [bytes, ← counted fun earlier member => below_before earlier member reached]
      rfl

/-- A step accounts for the report it makes, if any. -/
theorem reportAccounts_of_step (loud : logLevel ≠ .quiet) {start : ParallelDownload peerCount}
    {before : ProgressTable} (state : ReportedDownload peerCount) (event : ReportEvent peerCount)
    (next : ReportedDownload peerCount) (reports : List ChunkReport)
    (accounts : state.Accounts manifest shareId start before reports)
    (step : (reportedDownload prims manifest outputDir available shareId logLevel rate).step state
      event = some next) :
    next.Accounts manifest shareId start before
      (reports ++ (reportOf (state, event, next)).toList) := by
  have within := within_of_step state event next accounts.within step
  cases reportMove_of_step step with
  | work taken =>
      have grown := size_le_of_step taken
      rw [reportOf, Option.toList_none, List.append_nil]
      exact ⟨conserves_of_step _ _ _ accounts.conserves taken, within,
        fun report member => (accounts.reported report member).trans grown, accounts.fresh,
        accounts.apart, accounts.counts, accounts.published⟩
  | complete taken =>
      rw [reportOf, Option.toList_none, List.append_nil]
      exact accounts.complete taken within
  | report held reported =>
      rw [reportOf, held, Option.toList_some]
      exact accounts.report loud held reported within
  | elsewhere other =>
      rw [reportOf, Option.toList_none, List.append_nil]
      refine ⟨accounts.conserves, within, accounts.reported, accounts.fresh, accounts.apart, ?_,
        accounts.published⟩
      intro below
      have counts := accounts.counts below
      simpa [ProgressTable.last, ProgressTable.bytes, Function.update_of_ne (Ne.symm other)] using
        counts

/-- Every report of all chunks has been published. -/
def ReportedDownload.Shown (manifest : Manifest) (state : ReportedDownload peerCount)
    (reports : List ChunkReport) : Prop :=
  ∀ report ∈ reports, report.done = manifest.chunks.length →
    ∃ event ∈ state.published, ∃ bytesDone, ShowsAll manifest event bytesDone

theorem shown_of_step (loud : logLevel ≠ .quiet) (state : ReportedDownload peerCount)
    (event : ReportEvent peerCount) (next : ReportedDownload peerCount)
    (reports : List ChunkReport) (shown : state.Shown manifest reports)
    (step : (reportedDownload prims manifest outputDir available shareId logLevel rate).step state
      event = some next) :
    next.Shown manifest (reports ++ (reportOf (state, event, next)).toList) := by
  cases reportMove_of_step step with
  | work | complete | elsewhere =>
      rw [reportOf, Option.toList_none, List.append_nil]
      exact shown
  | @report worker now jobId report published states held reported =>
      rw [reportOf, held, Option.toList_some]
      intro other member reached
      obtain old | new := List.mem_append.mp member
      · obtain ⟨event, published_before, bytesDone, shows⟩ := shown other old reached
        exact ⟨event, List.mem_append_left _ published_before, bytesDone, shows⟩
      · obtain rfl := List.mem_singleton.mp new
        obtain ⟨event, published_now⟩ := @exists_mem_forShare rate shareId "peer"
          "parallel received+verified" logLevel other.done manifest.chunks.length other.bytes now
          jobId state.states loud reached.ge
        obtain ⟨bytesDone, progress, -⟩ := progress_forShare published_now
        rw [reported] at published_now
        exact ⟨event, List.mem_append_right _ published_now, bytesDone, by
          rw [ShowsAll, progress, reached]⟩

/-! ## Runs -/

theorem within_initial {completed : TreeSet UInt32}
    (resumed : ∀ index ∈ completed, index ∈ manifest.indices) (session : LibrarySession)
    (states : ProgressTable) :
    (ReportedDownload.initial manifest completed session peerCount states).Within manifest where
  known := fun _ foreign => places_initial_eq_zero resumed session foreign
  pending := fun _ _ held => nomatch held
  published := fun _ member => nomatch member

theorem reportAccounts_initial (distinct : manifest.indices.Nodup) {completed : TreeSet UInt32}
    (resumed : ∀ index ∈ completed, index ∈ manifest.indices) (session : LibrarySession)
    (states : ProgressTable) :
    (ReportedDownload.initial manifest completed session peerCount states).Accounts manifest shareId
      (.initial manifest completed session peerCount) states [] where
  conserves := conserves_initial distinct completed resumed session
  within := within_initial resumed session states
  reported := fun _ member => nomatch member
  fresh := fun _ _ held => nomatch held
  apart := fun _ _ _ _ _ held => nomatch held
  counts := fun _ => ⟨rfl, (min_eq_left (bytes_le_maxBytes states _)).symm⟩
  published := fun _ member => nomatch member

/-- Distinct numbers of chunks: the bytes an event of all chunks shows. -/
theorem bytes_of_showsAll (loud : logLevel ≠ .quiet) (distinct : manifest.indices.Nodup)
    {completed : TreeSet UInt32} (resumed : ∀ index ∈ completed, index ∈ manifest.indices)
    {session : LibrarySession} {states : ProgressTable} {events : List (ReportEvent peerCount)}
    {final : ReportedDownload peerCount} {event : IpcEvent} {bytesDone : UInt64}
    (run : (reportedDownload prims manifest outputDir available shareId logLevel rate).run
      (.initial manifest completed session peerCount states) events = some final)
    (member : event ∈ final.published) (shows : ShowsAll manifest event bytesDone) :
    bytesDone.toNat = min (states.bytes (parallelKey manifest shareId) +
      countedBytes (states.last (parallelKey manifest shareId)) (reportsOf
        ((reportedDownload prims manifest outputDir available shareId logLevel rate).trace
          (.initial manifest completed session peerCount states) events))) maxBytes := by
  have accounts := @Machine.invariant_of_trace _ _ _
    (fun state steps => state.Accounts manifest shareId
      (.initial manifest completed session peerCount) states (reportsOf steps))
    (fun state event next steps accounts step => by
      rw [reportsOf_concat]
      exact reportAccounts_of_step loud state event next (reportsOf steps) accounts step)
    _ _ _ [] (reportAccounts_initial distinct resumed session states) run
  rw [List.nil_append] at accounts
  obtain ⟨front, report, back, split, reached, bytes⟩ :=
    accounts.published event member bytesDone shows
  have later (other : ChunkReport) (behind : other ∈ back) :
      other.done ≤ lastOf (states.last (parallelKey manifest shareId)) (front ++ [report]) := by
    have most := (accounts.reported other (by simp [split, behind])).trans
      (size_le_chunks accounts.within)
    rw [lastOf_concat]
    omega
  have parts : front ++ report :: back = front ++ [report] ++ back := by simp
  rw [bytes, split, parts, countedBytes_append _ (front ++ [report]) back,
    countedBytes_eq_zero later, Nat.add_zero]

/-- What is left in the table has as many bytes as the reports that do not count; only when all
bytes together are the largest number that is counted, more may be left. -/
def Balanced (left last : Nat) (reports : List ChunkReport) : Prop :=
  overtakenBytes last reports = left ∧ reportedBytes reports ≤ maxBytes ∨
    overtakenBytes last reports ≤ left ∧ reportedBytes reports = maxBytes

theorem balanced_iff (left last : Nat) (reports : List ChunkReport) :
    min (left + countedBytes last reports) maxBytes = reportedBytes reports ↔
      Balanced left last reports := by
  have total := countedBytes_add_overtakenBytes last reports
  unfold Balanced
  omega

/-- An event that shows all chunks completed shows the bytes of all reports exactly when what
earlier jobs have left in the table is what the reports do not count; and it is published as soon
as all chunks are reported. -/
theorem progress_bytes_accounted_iff (prims : Primitives) (manifest : Manifest)
    (outputDir : Option PathBuf) (peerCount : Nat) (available : Fin peerCount → TreeSet UInt32)
    (shareId : ShareId) (logLevel : TransferLogLevel) (rate : UInt64 → Nat → UInt64)
    (loud : logLevel ≠ .quiet) (before session : LibrarySession) (completed : TreeSet UInt32)
    (loaded : (loadResumableChunkIndexes prims manifest outputDir).run before =
      .ok completed session)
    (states : ProgressTable) (events : List (ReportEvent peerCount))
    (final : ReportedDownload peerCount)
    (run : (reportedDownload prims manifest outputDir available shareId logLevel rate).run
      (.initial manifest completed session peerCount states) events = some final) :
    let reports := reportsOf
      ((reportedDownload prims manifest outputDir available shareId logLevel rate).trace
        (.initial manifest completed session peerCount states) events)
    let key := parallelKey manifest shareId
    (∀ event ∈ final.published, ∀ bytesDone, ShowsAll manifest event bytesDone →
      (bytesDone.toNat = reportedBytes reports ↔
        Balanced (states.bytes key) (states.last key) reports)) ∧
      ∀ report ∈ reports, report.done = manifest.chunks.length →
        ∃ event ∈ final.published, ∃ bytesDone, ShowsAll manifest event bytesDone := by
  intro reports key
  have resumed : ∀ index ∈ completed, index ∈ manifest.indices :=
    fun _ member => mem_indices_of_loadResumableChunkIndexes loaded member
  constructor
  · intro event member bytesDone shows
    have within := Machine.invariant_of_reaches within_of_step
      (within_initial resumed session states) ⟨events, run⟩
    have distinct : manifest.indices.Nodup := by
      refine TreeSet.nodup_of_size_eq_length
        (fun index completed => mem_indices_of_completed within completed) ?_
      simpa [Manifest.indices] using within.published event member _ _ bytesDone shows
    rw [bytes_of_showsAll loud distinct resumed run member shows]
    exact balanced_iff _ _ reports
  · have shown := @Machine.invariant_of_trace _ _ _
      (fun state steps => state.Shown manifest (reportsOf steps))
      (fun state event next steps shown step => by
        rw [reportsOf_concat]
        exact shown_of_step loud state event next (reportsOf steps) shown step)
      _ _ _ [] (fun _ member => absurd member List.not_mem_nil) run
    rwa [List.nil_append] at shown

end

/-! ## Two workers -/

/-- The two chunks of a share arrive at two workers, one each. -/
def bothChunks : List (ReportEvent 2) :=
  [.start 0 none, .lock 0, .pop 0, .examine 0, .request 0 none 7,
    .start 1 none, .lock 1, .pop 1, .examine 1, .request 1 none 8,
    .receive 0 (some (.raw 0 (oneByteChunk 0))), .store 0 false, .complete 0,
    .receive 1 (some (.raw 1 (oneByteChunk 1))), .store 1 false, .complete 1].map .download

/-- Each worker finds nothing more to do. -/
def bothEnd : List (ReportEvent 2) :=
  [.lock 0, .pop 0, .finish 0, .lock 1, .pop 1, .finish 1].map .download

/-- The download by two workers that have both chunks. -/
def twoWorkers : Machine (ReportedDownload 2) (ReportEvent 2) :=
  reportedDownload transparentPrimitives (oneByteManifest [0, 1]) none (fun _ => {0, 1})
    ⟨Vector.replicate 32 0⟩ .verbose (fun _ _ => 0)

/-- A job of the two workers that resumes what it finds in the library. -/
def twoWorkersJob (before : LibrarySession) (states : ProgressTable) :
    Option (ReportedDownload 2) :=
  match (loadResumableChunkIndexes transparentPrimitives (oneByteManifest [0, 1]) none).run
      before with
  | .ok completed session => some (.initial (oneByteManifest [0, 1]) completed session 2 states)
  | .error _ _ => none

/-- The reports of a run of the two workers. -/
def twoWorkersReports (start : ReportedDownload 2) (events : List (ReportEvent 2)) :
    List ChunkReport :=
  reportsOf (twoWorkers.trace start events)

/-- The reports come in the order of their numbers and the table is empty: the bytes of both chunks
are shown. -/
theorem progress_bytes_accounted_in_order :
    ∃ start final, twoWorkersJob freshSession (fun _ => none) = some start ∧
      twoWorkers.run start (bothChunks ++
        [.report 0 2000000000 none, .report 1 2000000001 none] ++ bothEnd) = some final ∧
      ∃ event ∈ final.published, ∃ bytesDone : UInt64,
        ShowsAll (oneByteManifest [0, 1]) event bytesDone ∧ bytesDone.toNat = 34 := by
  have ends : (twoWorkersJob freshSession fun _ => none).any (fun start =>
      (twoWorkers.run start (bothChunks ++
        [.report 0 2000000000 none, .report 1 2000000001 none] ++ bothEnd)).isSome &&
      twoWorkersReports start (bothChunks ++
        [.report 0 2000000000 none, .report 1 2000000001 none] ++ bothEnd) =
          [⟨1, 17⟩, ⟨2, 17⟩]) = true := by
    decide +kernel
  obtain ⟨start, started, ran⟩ := (Option.any_eq_true _ _).mp ends
  simp only [Bool.and_eq_true, decide_eq_true_eq] at ran
  obtain ⟨ends, reports⟩ := ran
  obtain ⟨final, run⟩ := Option.isSome_iff_exists.mp ends
  refine ⟨start, final, started, run, ?_⟩
  cases loaded : (loadResumableChunkIndexes transparentPrimitives (oneByteManifest [0, 1]) none).run
      freshSession with
  | error error after => simp [twoWorkersJob, loaded] at started
  | ok completed session =>
      obtain rfl : ReportedDownload.initial (oneByteManifest [0, 1]) completed session 2
          (fun _ => none) = start := by
        simpa [twoWorkersJob, loaded] using started
      obtain ⟨accounted, shown⟩ := progress_bytes_accounted_iff transparentPrimitives
        (oneByteManifest [0, 1]) none 2 (fun _ => {0, 1}) ⟨Vector.replicate 32 0⟩ .verbose
        (fun _ _ => 0) (by decide) freshSession session completed loaded (fun _ => none) _ final run
      change reportsOf _ = _ at reports
      unfold twoWorkers at reports
      simp only [reports] at accounted shown
      obtain ⟨event, published, bytesDone, shows⟩ := shown ⟨2, 17⟩ (by simp) rfl
      exact ⟨event, published, bytesDone, shows,
        (accounted event published bytesDone shows).mpr (.inl ⟨rfl, by decide⟩)⟩

/-- One worker stores and reports chunk 0 and loses its connection; the other one never starts. -/
def halfDone : List (ReportEvent 2) :=
  [.start 0 none, .lock 0, .pop 0, .examine 0, .request 0 none 7,
    .receive 0 (some (.raw 0 (oneByteChunk 0))), .store 0 true, .complete 0].map .download ++
  [.report 0 2000000000 none] ++
  [.lock 0, .pop 0, .examine 0, .request 0 (some .brokenPipe) 9, .release 0,
    .start 1 (some .brokenPipe)].map .download

/-- The next job finds chunk 0 and receives chunk 1. -/
def otherHalf : List (ReportEvent 2) :=
  [.start 0 none, .lock 0, .pop 0, .examine 0, .request 0 none 7,
    .receive 0 (some (.raw 1 (oneByteChunk 1))), .store 0 false, .complete 0].map .download ++
  [.report 0 3000000000 none] ++
  [.lock 0, .pop 0, .finish 0, .start 1 none, .lock 1, .pop 1, .finish 1].map .download

/-- The numbers of bytes that a run shows for all chunks, and the bytes that it reports. -/
def shownAndReported (start : ReportedDownload 2) (events : List (ReportEvent 2)) :
    Option (List UInt64 × Nat) :=
  (twoWorkers.run start events).map fun final =>
    (final.published.filterMap fun event =>
      match event.progress with
      | some (2, 2, bytesDone) => some bytesDone
      | _ => none,
      reportedBytes (twoWorkersReports start events))

/-- A report that overtakes another one hides its bytes, and the bytes that a failed job has
reported are shown again by the next one. -/
theorem progress_bytes_miscounted :
    (twoWorkersJob freshSession fun _ => none).bind (fun start => shownAndReported start
        (bothChunks ++ [.report 1 2000000000 none, .report 0 2000000001 none] ++ bothEnd)) =
      some ([17, 17], 34) ∧
    ((twoWorkersJob freshSession fun _ => none).bind fun first =>
      (twoWorkers.run first halfDone).bind fun failed =>
        (twoWorkersJob failed.download.session failed.states).bind fun next =>
          shownAndReported next otherHalf) = some ([34, 34], 17) := by
  constructor <;> decide +kernel

end Etle
