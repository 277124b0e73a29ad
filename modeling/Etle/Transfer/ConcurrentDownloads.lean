import Etle.State.OneByteShare
import Etle.Transfer.ShareLocality

/-!
# Downloads that run at the same time

The daemon runs every download job as a task of its own over the same libraries.  Jobs of different
shares do not notice each other: whatever order the scheduler takes their steps in, each of them
goes through the states it would go through alone, and the directories of all other shares stay as
they are.
-/

namespace Etle

open Std (TreeMap TreeSet)

/-- The chunk loop of a download job: from one peer, or with one worker per peer. -/
inductive DownloadLoop where
  | windowed (outputDir : Option PathBuf) (peerAvailable : TreeSet UInt32) (requestWindow : Nat)
  | parallel (manifest : Manifest) (outputDir : Option PathBuf) (peerCount : Nat)
      (available : Fin peerCount → TreeSet UInt32)

namespace DownloadLoop

/-- The state of the loop. -/
def State : DownloadLoop → Type
  | windowed .. => WindowedDownload
  | parallel _ _ peerCount _ => ParallelDownload peerCount

/-- What can happen in the loop. -/
def Event : DownloadLoop → Type
  | windowed .. => WindowEvent
  | parallel _ _ peerCount _ => ParallelEvent peerCount

/-- The steps of the loop. -/
def machine (prims : Primitives) : (loop : DownloadLoop) → Machine loop.State loop.Event
  | windowed outputDir peerAvailable requestWindow =>
      downloadMissingChunksWindowed prims outputDir peerAvailable requestWindow
  | parallel manifest outputDir _ available =>
      parallelDownloadWorkers prims manifest outputDir available

/-- The disk of the loop. -/
def lens : (loop : DownloadLoop) → Lens loop.State Disk
  | windowed .. => windowLens
  | parallel .. => workersLens

/-- The library and the temporary files of the loop are those of one share. -/
def WorksOn (paths : LibraryPaths) : (loop : DownloadLoop) → loop.State → Prop
  | windowed .. => WindowedDownload.WorksOn paths
  | parallel .. => ParallelDownload.WorksOn paths

/-- A loop is confined to the directory of its share. -/
theorem confinedTo (prims : Primitives) (paths : LibraryPaths) (loop : DownloadLoop) :
    (loop.machine prims).ConfinedTo loop.lens paths (loop.WorksOn paths) := by
  cases loop with
  | windowed => exact confinedTo_downloadMissingChunksWindowed
  | parallel => exact confinedTo_parallelDownloadWorkers

end DownloadLoop

/-- Jobs of different shares over the same libraries: an interleaving of their steps is possible
exactly when each job can take its own steps alone; then each of them has reached the state that it
reaches alone and its share directory is the one it leaves alone, and no other directory has
changed. -/
theorem concurrentDownloads_independent (prims : Primitives) {ι : Type} [DecidableEq ι]
    (jobs : ι → DownloadLoop) (paths : ι → LibraryPaths) (apart : Function.Injective paths)
    (disk : Disk) (start : ∀ i, (jobs i).State)
    (works : ∀ i, (jobs i).WorksOn (paths i) (start i))
    (shared : ∀ i, (jobs i).lens.get (start i) = disk) (events : List (Σ i, (jobs i).Event)) :
    ((∃ final, (interleaved (fun i => (jobs i).machine prims) fun i => (jobs i).lens).run
        { store := disk, states := start } events = some final) ↔
      ∀ i, ∃ after, ((jobs i).machine prims).run (start i) (eventsOf i events) = some after) ∧
    ∀ final, (interleaved (fun i => (jobs i).machine prims) fun i => (jobs i).lens).run
        { store := disk, states := start } events = some final →
      (∀ i, ∃ after, ((jobs i).machine prims).run (start i) (eventsOf i events) = some after ∧
        final.store (paths i) = (jobs i).lens.get after (paths i) ∧
        ∀ store, (jobs i).lens.put store (final.states i) = (jobs i).lens.put store after) ∧
      ∀ other, (∀ i, other ≠ paths i) → final.store other = disk other := by
  have confined (i : ι) := (jobs i).confinedTo prims (paths i)
  have stands (i : ι) : StandsAs (fun i => (jobs i).lens) paths i (start i)
      { store := disk, states := start } :=
    ⟨congrFun (shared i) _, fun _ => rfl⟩
  refine ⟨exists_run_interleaved_iff confined apart works stands events, fun final ran => ?_⟩
  obtain ⟨alone, untouched⟩ := run_of_interleaved confined apart works stands ran
  refine ⟨fun i => ?_, untouched⟩
  obtain ⟨after, reached, same⟩ := alone i
  exact ⟨after, reached, same.store.symm, fun store => (same.state store).symm⟩

/-- The share of the second of two jobs, or of the first one. -/
def jobPaths (second : Bool) : LibraryPaths where
  root := ["library"]
  shareId := (descriptorFromManifest transparentPrimitives
    (oneByteManifest [if second then 1 else 0])).shareId

/-- A job that has requested its chunk and is about to receive it. -/
def requestedJob (second : Bool) : WindowedDownload where
  loop := {
    todo := [], inFlight := (∅ : TreeMap UInt32 ChunkMeta).insert 0 (oneByteEntry 0)
    activeRequestWindow := 1, chunksSinceWindowGrowth := 0, chunks := ∅, completed := ∅ }
  session := {
    disk := fun _ => .absent
    active := some {
      paths := jobPaths second, progress := .empty (jobPaths second).shareId, dirtyChunks := 0 } }
  phase := .running

/-- Both jobs receive their chunk before either of them stores it. -/
def crossedEvents : List (Σ _ : Bool, WindowEvent) :=
  [⟨false, .receive (some (.raw 0 (oneByteChunk 0))) 0⟩,
    ⟨true, .receive (some (.raw 0 (oneByteChunk 0))) 0⟩, ⟨true, .persist false⟩,
    ⟨false, .persist true⟩]

/-- Two jobs that use the same temporary name store their chunks under their own shares. -/
theorem concurrentDownloads_independent_of_crossing :
    ∃ final, (interleaved (fun _ : Bool => (DownloadLoop.windowed none {0} 1).machine
        transparentPrimitives) fun _ => (DownloadLoop.windowed none {0} 1).lens).run
        { store := fun _ => .absent, states := requestedJob } crossedEvents = some final := by
  refine (concurrentDownloads_independent transparentPrimitives
    (fun _ : Bool => .windowed none {0} 1) jobPaths (by decide +kernel) (fun _ => .absent)
    requestedJob (fun second => ⟨?_, ?_⟩) (fun _ => rfl) crossedEvents).1.mpr fun second => ?_
  · rintro library ⟨⟩
    rfl
  · simp [requestedJob, WindowPhase.temp]
  · cases second <;> exact Option.isSome_iff_exists.mp (by decide +kernel)

end Etle
