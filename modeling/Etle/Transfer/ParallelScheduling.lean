import Etle.Foundations.FiniteSets
import Etle.State.OneByteShare
import Etle.Transfer.ParallelDownload
import Mathlib.Algebra.Order.BigOperators.Group.Finset

/-!
# The parallel scheduler conserves work

Every index has as many places as it had at the start: copies in the queue, hands of workers, and
the completed set.  With distinct indices that number is at most one, so no index is lost and none
is requested twice.
-/

namespace Etle

open Std (TreeSet)

section

variable {prims : Primitives} {manifest : Manifest} {outputDir : Option PathBuf}
  {peerCount : Nat} {available : Fin peerCount → TreeSet UInt32}

/-- What each step of the workers does. -/
inductive ParallelMove (prims : Primitives) (manifest : Manifest) (outputDir : Option PathBuf)
    (available : Fin peerCount → TreeSet UInt32) (state : ParallelDownload peerCount) :
    ParallelEvent peerCount → ParallelDownload peerCount → Prop
  | start {worker : Fin peerCount} {failure : Option ErrorKind}
      (starting : state.workers worker = .starting) :
      ParallelMove prims manifest outputDir available state (.start worker failure)
        (state.move worker .ready)
  | startFails {worker : Fin peerCount} {failure : Option ErrorKind} {error : NetworkError}
      (starting : state.workers worker = .starting) :
      ParallelMove prims manifest outputDir available state (.start worker failure)
        (state.move worker (.ended (.error error)))
  | lock {worker : Fin peerCount} (ready : state.workers worker = .ready)
      (free : state.QueueFree) :
      ParallelMove prims manifest outputDir available state (.lock worker)
        (state.move worker (.popping state.queue.length))
  | pop {worker : Fin peerCount} {attempts : Nat} {index : UInt32} {rest : List UInt32}
      (popping : state.workers worker = .popping (attempts + 1))
      (queued : state.queue = index :: rest) :
      ParallelMove prims manifest outputDir available state (.pop worker)
        ({ state with queue := rest }.move worker (.examining attempts index))
  | giveUp {worker : Fin peerCount} {attempts : Nat}
      (popping : state.workers worker = .popping attempts) :
      ParallelMove prims manifest outputDir available state (.pop worker)
        (state.move worker .finishing)
  | drop {worker : Fin peerCount} {attempts : Nat} {index : UInt32}
      (examining : state.workers worker = .examining attempts index)
      (completed : index ∈ state.completed) :
      ParallelMove prims manifest outputDir available state (.examine worker)
        (state.move worker (.popping attempts))
  | take {worker : Fin peerCount} {attempts : Nat} {entry : ChunkMeta}
      (examining : state.workers worker = .examining attempts entry.index)
      (missing : entry.index ∉ state.completed) (has : entry.index ∈ available worker)
      (member : entry ∈ manifest.chunks) :
      ParallelMove prims manifest outputDir available state (.examine worker)
        (state.move worker (.requesting entry))
  | unknown {worker : Fin peerCount} {attempts : Nat} {index : UInt32}
      (examining : state.workers worker = .examining attempts index)
      (foreign : index ∉ manifest.indices) :
      ParallelMove prims manifest outputDir available state (.examine worker)
        (state.move worker .ready)
  | rotate {worker : Fin peerCount} {attempts : Nat} {index : UInt32}
      (examining : state.workers worker = .examining attempts index) :
      ParallelMove prims manifest outputDir available state (.examine worker)
        ({ state with queue := state.queue ++ [index] }.move worker (.popping attempts))
  | request {worker : Fin peerCount} {stagingTimestamp : Nat} {entry : ChunkMeta}
      {library : ActiveDownloadLibraryState}
      (requesting : state.workers worker = .requesting entry)
      (active : state.session.active = some library) :
      ParallelMove prims manifest outputDir available state
        (.request worker none stagingTimestamp)
        (state.move worker (.receiving entry
          { paths := library.paths, index := entry.index, suffix := stagingTimestamp }))
  | requestFails {worker : Fin peerCount} {failure : Option ErrorKind} {stagingTimestamp : Nat}
      {entry : ChunkMeta} {error : NetworkError}
      (requesting : state.workers worker = .requesting entry) :
      ParallelMove prims manifest outputDir available state
        (.request worker failure stagingTimestamp)
        (state.move worker (.failing entry.index error))
  | receive {worker : Fin peerCount} {reply : Option Frame} {entry : ChunkMeta} {temp : TempPath}
      {frame : ReceivedChunkFrame} {rest : List Frame} {session : LibrarySession}
      (receiving : state.workers worker = .receiving entry temp)
      (arrived : (receiveChunkToFile prims temp reply.toList).run state.session =
        .ok (frame, rest) session) :
      ParallelMove prims manifest outputDir available state (.receive worker reply)
        ({ state with session }.move worker (.received entry temp frame))
  | receiveFails {worker : Fin peerCount} {reply : Option Frame} {entry : ChunkMeta}
      {temp : TempPath} {error : NetworkError} {session : LibrarySession}
      (receiving : state.workers worker = .receiving entry temp)
      (failed : (receiveChunkToFile prims temp reply.toList).run state.session =
        .error error session) :
      ParallelMove prims manifest outputDir available state (.receive worker reply)
        ({ state with session }.move worker (.failing entry.index error))
  | store {worker : Fin peerCount} {elapsed : Bool} {entry : ChunkMeta} {temp : TempPath}
      {frame : ReceivedChunkFrame} {length : Nat} {session : LibrarySession}
      (received : state.workers worker = .received entry temp frame)
      (stored : (storeReceivedChunk prims outputDir entry temp elapsed frame).run state.session =
        .ok length session) :
      ParallelMove prims manifest outputDir available state (.store worker elapsed)
        ({ state with session }.move worker (.completing entry.index))
  | storeFails {worker : Fin peerCount} {elapsed : Bool} {entry : ChunkMeta} {temp : TempPath}
      {frame : ReceivedChunkFrame} {error : NetworkError} {session : LibrarySession}
      (received : state.workers worker = .received entry temp frame)
      (failed : (storeReceivedChunk prims outputDir entry temp elapsed frame).run state.session =
        .error error session) :
      ParallelMove prims manifest outputDir available state (.store worker elapsed)
        ({ state with session }.move worker (.failing entry.index error))
  | complete {worker : Fin peerCount} {index : UInt32}
      (completing : state.workers worker = .completing index) :
      ParallelMove prims manifest outputDir available state (.complete worker)
        ({ state with completed := state.completed.insert index }.move worker .ready)
  | release {worker : Fin peerCount} {index : UInt32} {error : NetworkError}
      (failing : state.workers worker = .failing index error) (free : state.QueueFree) :
      ParallelMove prims manifest outputDir available state (.release worker)
        ({ state with queue := state.queue ++ [index] }.move worker (.ended (.error error)))
  | finish {worker : Fin peerCount} (finishing : state.workers worker = .finishing) :
      ParallelMove prims manifest outputDir available state (.finish worker)
        (state.move worker (.ended (.ok ())))

/-- Every successful step is one of the listed moves. -/
theorem parallelMove_of_step {state next : ParallelDownload peerCount}
    {event : ParallelEvent peerCount}
    (step : (parallelDownloadWorkers prims manifest outputDir available).step state event =
      some next) : ParallelMove prims manifest outputDir available state event next := by
  cases event with
  | start worker failure =>
      simp only [parallelDownloadWorkers, startWorker] at step
      split at step
      · split at step
        · obtain rfl := Option.some.inj step
          exact .start ‹_›
        · split at step <;> obtain rfl := Option.some.inj step
          · exact .start ‹_›
          · exact .startFails ‹_›
      · cases step
  | lock worker =>
      simp only [parallelDownloadWorkers, lockQueue] at step
      split at step
      · split at step
        · obtain rfl := Option.some.inj step
          exact .lock ‹_› ‹_›
        · cases step
      · cases step
  | pop worker =>
      simp only [parallelDownloadWorkers, popFront] at step
      split at step
      · obtain rfl := Option.some.inj step
        exact .pop ‹_› ‹_›
      · obtain rfl := Option.some.inj step
        exact .giveUp ‹_›
      · cases step
  | examine worker =>
      simp only [parallelDownloadWorkers, examineIndex] at step
      split at step
      · rename_i attempts index examining
        split at step
        · rename_i completed
          obtain rfl := Option.some.inj step
          exact .drop examining (by simpa using completed)
        · rename_i missing
          split at step
          · rename_i has
            cases found : manifest.chunks.find? fun entry => entry.index == index with
            | none =>
                simp only [found] at step
                obtain rfl := Option.some.inj step
                refine .unknown examining ?_
                simpa [Manifest.indices] using found
            | some entry =>
                simp only [found] at step
                obtain rfl := Option.some.inj step
                obtain rfl : entry.index = index := by simpa using List.find?_some found
                exact .take examining (by simpa using missing) (by simpa using has)
                  (List.mem_of_find?_eq_some found)
          · obtain rfl := Option.some.inj step
            exact .rotate examining
      · cases step
  | request worker failure stagingTimestamp =>
      simp only [parallelDownloadWorkers, requestChunk] at step
      split at step
      · obtain rfl := Option.some.inj step
        exact .requestFails ‹_›
      · rename_i requesting
        cases active : state.session.active with
        | none =>
            simp only [active, downloadChunkTempPath, activeDownloadState, bind,
              Except.bind] at step
            obtain rfl := Option.some.inj step
            exact .requestFails requesting
        | some library =>
            simp only [active, downloadChunkTempPath, activeDownloadState, bind, Except.bind,
              pure, Except.pure] at step
            obtain rfl := Option.some.inj step
            exact .request requesting active
      · cases step
  | receive worker reply =>
      simp only [parallelDownloadWorkers, receiveReply] at step
      split at step
      · split at step <;> obtain rfl := Option.some.inj step
        · exact .receive ‹_› ‹_›
        · exact .receiveFails ‹_› ‹_›
      · cases step
  | store worker elapsed =>
      simp only [parallelDownloadWorkers, storeReply] at step
      split at step
      · split at step <;> obtain rfl := Option.some.inj step
        · exact .store ‹_› ‹_›
        · exact .storeFails ‹_› ‹_›
      · cases step
  | complete worker =>
      simp only [parallelDownloadWorkers, completeIndex] at step
      split at step
      · obtain rfl := Option.some.inj step
        exact .complete ‹_›
      · cases step
  | release worker =>
      simp only [parallelDownloadWorkers, releaseIndex] at step
      split at step
      · split at step
        · obtain rfl := Option.some.inj step
          exact .release ‹_› ‹_›
        · cases step
      · cases step
  | finish worker =>
      simp only [parallelDownloadWorkers, finishWorker] at step
      split at step
      · obtain rfl := Option.some.inj step
        exact .finish ‹_›
      · cases step

/-! ## Places of an index -/

/-- The index a worker has in its hand. -/
def DownloadWorker.inHand : DownloadWorker → Option UInt32
  | .examining _ index | .completing index | .failing index _ => some index
  | .requesting entry | .receiving entry _ | .received entry _ _ => some entry.index
  | .starting | .ready | .popping _ | .finishing | .ended _ => none

/-- One if the worker holds the index. -/
def DownloadWorker.holds (index : UInt32) (worker : DownloadWorker) : Nat :=
  if worker.inHand = some index then 1 else 0

/-- The number of places of an index: copies in the queue, hands, and the completed set. -/
def ParallelDownload.places (state : ParallelDownload peerCount) (index : UInt32) : Nat :=
  state.queue.count index + (∑ worker, (state.workers worker).holds index) +
    (state.completed.contains index).toNat

theorem holds_update (index : UInt32) {state : ParallelDownload peerCount}
    {worker : Fin peerCount} {before : DownloadWorker} (after : DownloadWorker)
    (position : state.workers worker = before) :
    (∑ other, (Function.update state.workers worker after other).holds index) +
        before.holds index =
      (∑ other, (state.workers other).holds index) + after.holds index := by
  rw [← position]
  exact sum_update_add state.workers worker after (DownloadWorker.holds index)

/-- A worker that keeps what is in its hand keeps every place. -/
theorem places_of_same_hand {state : ParallelDownload peerCount} {worker : Fin peerCount}
    {before after : DownloadWorker} (session : LibrarySession)
    (position : state.workers worker = before) (same : after.inHand = before.inHand)
    (index : UInt32) :
    ({ state with session }.move worker after).places index = state.places index := by
  have total := holds_update index after position
  have equal : after.holds index = before.holds index := by simp [DownloadWorker.holds, same]
  simp only [ParallelDownload.places, ParallelDownload.move]
  omega

@[simp]
theorem holds_of_inHand_none {worker : DownloadWorker} (empty : worker.inHand = none)
    (index : UInt32) : worker.holds index = 0 := by
  simp [DownloadWorker.holds, empty]

theorem holds_of_inHand {worker : DownloadWorker} {taken : UInt32}
    (hand : worker.inHand = some taken) (index : UInt32) :
    worker.holds index = if taken = index then 1 else 0 := by
  simp [DownloadWorker.holds, hand]

theorem count_append_singleton (queue : List UInt32) (index taken : UInt32) :
    (queue ++ [taken]).count index = queue.count index + (if taken = index then 1 else 0) := by
  simp [List.count_append, List.count_singleton]

/-- A worker's hand is one of the places of its index. -/
theorem one_le_places_of_hand {state : ParallelDownload peerCount} {worker : Fin peerCount}
    {index : UInt32} (hand : (state.workers worker).inHand = some index) :
    1 + (state.completed.contains index).toNat ≤ state.places index := by
  have single : (state.workers worker).holds index ≤
      ∑ other, (state.workers other).holds index :=
    Finset.single_le_sum (fun other _ => Nat.zero_le ((state.workers other).holds index))
      (Finset.mem_univ worker)
  rw [holds_of_inHand hand, if_pos rfl] at single
  simp only [ParallelDownload.places]
  omega

/-- A step keeps the number of places of an index, unless the index has two of them or is outside
the manifest and loses one. -/
theorem places_change_of_step {state next : ParallelDownload peerCount}
    {event : ParallelEvent peerCount}
    (step : (parallelDownloadWorkers prims manifest outputDir available).step state event =
      some next) (index : UInt32) :
    next.places index = state.places index ∨
      next.places index < state.places index ∧
        (1 < state.places index ∨ index ∉ manifest.indices) := by
  cases parallelMove_of_step step with
  | start position | startFails position | lock position | giveUp position | finish position =>
      exact .inl (places_of_same_hand _ position (by rfl) index)
  | take position | request position | requestFails position | receive position
  | receiveFails position | store position | storeFails position =>
      exact .inl (places_of_same_hand _ position (by rfl) index)
  | @pop worker attempts taken rest popping queued =>
      have total := holds_update index (.examining attempts taken) popping
      rw [holds_of_inHand_none rfl, holds_of_inHand rfl] at total
      left
      simp only [ParallelDownload.places, ParallelDownload.move, queued, List.count_cons,
        beq_iff_eq]
      omega
  | @drop worker attempts taken examining completed =>
      have total := holds_update index (.popping attempts) examining
      rw [holds_of_inHand rfl, holds_of_inHand_none rfl] at total
      by_cases same : taken = index
      · subst same
        have hand : (state.workers worker).inHand = some taken := by rw [examining]; rfl
        have twice := one_le_places_of_hand hand
        simp only [TreeSet.contains_iff_mem.mpr completed, Bool.toNat_true] at twice
        rw [if_pos rfl] at total
        right
        simp only [ParallelDownload.places, ParallelDownload.move] at twice ⊢
        omega
      · rw [if_neg same] at total
        left
        simp only [ParallelDownload.places, ParallelDownload.move]
        omega
  | @unknown worker attempts taken examining foreign =>
      have total := holds_update index .ready examining
      rw [holds_of_inHand rfl, holds_of_inHand_none rfl] at total
      by_cases same : taken = index
      · subst same
        rw [if_pos rfl] at total
        refine .inr ⟨?_, .inr foreign⟩
        simp only [ParallelDownload.places, ParallelDownload.move]
        omega
      · rw [if_neg same] at total
        left
        simp only [ParallelDownload.places, ParallelDownload.move]
        omega
  | @rotate worker attempts taken examining =>
      have total := holds_update index (.popping attempts) examining
      rw [holds_of_inHand rfl, holds_of_inHand_none rfl] at total
      left
      simp only [ParallelDownload.places, ParallelDownload.move, count_append_singleton]
      omega
  | @complete worker taken completing =>
      have total := holds_update index .ready completing
      rw [holds_of_inHand rfl, holds_of_inHand_none rfl] at total
      have hand : (state.workers worker).inHand = some taken := by rw [completing]; rfl
      have place := one_le_places_of_hand hand
      simp only [ParallelDownload.places, ParallelDownload.move, TreeSet.contains_insert] at place ⊢
      by_cases same : taken = index
      · subst same
        have same_key : (compare taken taken == .eq) = true := by simp
        have counted := Bool.toNat_le (state.completed.contains taken)
        simp only [if_true, same_key, Bool.true_or, Bool.toNat_true] at total ⊢
        omega
      · have different : (compare taken index == .eq) = false := by simpa using same
        simp only [same, if_false, different, Bool.false_or] at total ⊢
        omega
  | @release worker taken error failing free =>
      have total := holds_update index (.ended (.error error)) failing
      rw [holds_of_inHand rfl, holds_of_inHand_none rfl] at total
      left
      simp only [ParallelDownload.places, ParallelDownload.move, count_append_singleton]
      omega

/-- As long as no index has two places and none outside the manifest has one, every step keeps the
number of places of every index. -/
theorem places_of_step {state next : ParallelDownload peerCount} {event : ParallelEvent peerCount}
    (single : ∀ index, state.places index ≤ 1)
    (known : ∀ index, index ∉ manifest.indices → state.places index = 0)
    (step : (parallelDownloadWorkers prims manifest outputDir available).step state event =
      some next) (index : UInt32) : next.places index = state.places index := by
  obtain same | ⟨fewer, twice | foreign⟩ := places_change_of_step step index
  · exact same
  · have once := single index
    omega
  · have none_left := known index foreign
    omega

/-! ## Whole runs -/

/-- Every index has as many places as it has in `start`, which gives it at most one and none
outside the manifest. -/
structure ParallelDownload.Conserves (manifest : Manifest)
    (start state : ParallelDownload peerCount) : Prop where
  places : ∀ index, state.places index = start.places index
  single : ∀ index, start.places index ≤ 1
  known : ∀ index, index ∉ manifest.indices → start.places index = 0

theorem conserves_of_step {start : ParallelDownload peerCount} (state : ParallelDownload peerCount)
    (event : ParallelEvent peerCount) (next : ParallelDownload peerCount)
    (conserves : start.Conserves manifest state)
    (step : (parallelDownloadWorkers prims manifest outputDir available).step state event =
      some next) : start.Conserves manifest next := by
  refine ⟨fun index => ?_, conserves.single, conserves.known⟩
  rw [← conserves.places index]
  refine places_of_step ?_ ?_ step index
  · intro other
    rw [conserves.places]
    exact conserves.single other
  · intro other foreign
    rw [conserves.places]
    exact conserves.known other foreign

theorem places_initial (completed : TreeSet UInt32) (session : LibrarySession)
    (index : UInt32) :
    (ParallelDownload.initial manifest completed session peerCount).places index =
      (missingChunks manifest completed).count index + (completed.contains index).toNat := by
  simp [ParallelDownload.places, ParallelDownload.initial, DownloadWorker.holds,
    DownloadWorker.inHand]

theorem mem_missingChunks {completed : TreeSet UInt32} {index : UInt32} :
    index ∈ missingChunks manifest completed ↔ index ∈ manifest.indices ∧ index ∉ completed := by
  simp [missingChunks, ← TreeSet.contains_iff_mem]

/-- Every index of the manifest starts with exactly one place. -/
theorem places_initial_eq_one (distinct : manifest.indices.Nodup) {completed : TreeSet UInt32}
    {session : LibrarySession} {index : UInt32} (member : index ∈ manifest.indices) :
    (ParallelDownload.initial manifest completed session peerCount).places index = 1 := by
  have nodup : (missingChunks manifest completed).Nodup := distinct.filter _
  rw [places_initial]
  by_cases done : index ∈ completed
  · have absent : index ∉ missingChunks manifest completed :=
      fun missing => (mem_missingChunks.mp missing).2 done
    simp [List.count_eq_zero_of_not_mem absent, TreeSet.contains_iff_mem.mpr done]
  · have queued : index ∈ missingChunks manifest completed := mem_missingChunks.mpr ⟨member, done⟩
    simp [List.count_eq_one_of_mem nodup queued, TreeSet.contains_eq_false_of_not_mem done]

/-- Other indices start with none. -/
theorem places_initial_eq_zero {completed : TreeSet UInt32}
    (resumed : ∀ index ∈ completed, index ∈ manifest.indices) (session : LibrarySession)
    {index : UInt32} (foreign : index ∉ manifest.indices) :
    (ParallelDownload.initial manifest completed session peerCount).places index = 0 := by
  have absent : index ∉ missingChunks manifest completed :=
    fun missing => foreign (mem_missingChunks.mp missing).1
  have not_completed :=
    TreeSet.contains_eq_false_of_not_mem fun member => foreign (resumed index member)
  simp [places_initial, List.count_eq_zero_of_not_mem absent, not_completed]

theorem conserves_initial (distinct : manifest.indices.Nodup) (completed : TreeSet UInt32)
    (resumed : ∀ index ∈ completed, index ∈ manifest.indices) (session : LibrarySession) :
    (ParallelDownload.initial manifest completed session peerCount).Conserves manifest
      (ParallelDownload.initial manifest completed session peerCount) := by
  refine ⟨fun _ => rfl, fun index => ?_, fun index => places_initial_eq_zero resumed session⟩
  by_cases member : index ∈ manifest.indices
  · exact (places_initial_eq_one distinct member).le
  · exact (places_initial_eq_zero resumed session member).le.trans zero_le_one

/-- Where one index is: exactly one of the queue, one hand, and the completed set. -/
def ParallelDownload.InOnePlace (state : ParallelDownload peerCount) (index : UInt32) : Prop :=
  (state.queue.count index = 1 ∧ (∀ worker, (state.workers worker).inHand ≠ some index) ∧
    index ∉ state.completed) ∨
  (index ∉ state.queue ∧ (∃! worker, (state.workers worker).inHand = some index) ∧
    index ∉ state.completed) ∨
  (index ∉ state.queue ∧ (∀ worker, (state.workers worker).inHand ≠ some index) ∧
    index ∈ state.completed)

theorem inHand_ne_of_sum_eq_zero {state : ParallelDownload peerCount} {index : UInt32}
    (none_held : (∑ worker, (state.workers worker).holds index) = 0) (worker : Fin peerCount) :
    (state.workers worker).inHand ≠ some index := by
  intro hand
  have nothing := Finset.sum_eq_zero_iff.mp none_held worker (Finset.mem_univ worker)
  simp [holds_of_inHand hand] at nothing

theorem existsUnique_hand_of_sum_eq_one {state : ParallelDownload peerCount} {index : UInt32}
    (one_held : (∑ worker, (state.workers worker).holds index) = 1) :
    ∃! worker, (state.workers worker).inHand = some index := by
  obtain ⟨worker, -, positive⟩ : ∃ worker ∈ Finset.univ, (state.workers worker).holds index ≠ 0 :=
    Finset.exists_ne_zero_of_sum_ne_zero (by omega)
  have hand : (state.workers worker).inHand = some index := by
    by_contra other_hand
    simp [DownloadWorker.holds, other_hand] at positive
  refine ⟨worker, hand, fun other other_hand => ?_⟩
  by_contra different
  have pair : ∑ holder ∈ {other, worker}, (state.workers holder).holds index ≤
      ∑ holder, (state.workers holder).holds index :=
    Finset.sum_le_sum_of_subset (Finset.subset_univ _)
  rw [Finset.sum_pair different, holds_of_inHand hand, holds_of_inHand other_hand,
    if_pos rfl] at pair
  omega

/-- An index with exactly one place is in exactly one place. -/
theorem inOnePlace_of_places_eq_one {state : ParallelDownload peerCount} {index : UInt32}
    (one : state.places index = 1) : state.InOnePlace index := by
  simp only [ParallelDownload.places] at one
  cases done : state.completed.contains index with
  | true =>
      simp only [done, Bool.toNat_true] at one
      refine .inr (.inr ⟨?_, inHand_ne_of_sum_eq_zero (by omega), TreeSet.contains_iff_mem.mp done⟩)
      exact List.count_eq_zero.mp (by omega)
  | false =>
      simp only [done, Bool.toNat_false] at one
      have missing : index ∉ state.completed := by
        intro member
        simp [TreeSet.contains_iff_mem.mpr member] at done
      by_cases queued : state.queue.count index = 1
      · exact .inl ⟨queued, inHand_ne_of_sum_eq_zero (by omega), missing⟩
      · refine .inr (.inl ⟨List.count_eq_zero.mp (by omega), ?_, missing⟩)
        exact existsUnique_hand_of_sum_eq_one (by omega)

/-- The decision after the workers is to decrypt exactly when every chunk is completed. -/
theorem afterWorkers_eq_decrypt_iff {completed : TreeSet UInt32}
    (inside : ∀ index ∈ completed, index ∈ manifest.indices) :
    afterWorkers manifest completed = .decrypt ↔
      ∀ index ∈ manifest.indices, index ∈ completed := by
  have length : manifest.indices.length = manifest.chunks.length := by simp [Manifest.indices]
  unfold afterWorkers
  split
  · rename_i different
    cases found : manifest.chunks.find? fun entry => !completed.contains entry.index with
    | some entry =>
        have missing : entry.index ∉ completed := by
          simpa [← TreeSet.contains_iff_mem] using List.find?_some found
        simp only [reduceCtorEq, false_iff]
        intro covered
        exact missing (covered entry.index
          (List.mem_map_of_mem (List.mem_of_find?_eq_some found)))
    | none =>
        simpa [Manifest.indices, TreeSet.contains_iff_mem] using found
  · rename_i equal
    refine iff_of_true rfl fun index member => ?_
    exact TreeSet.mem_of_size_eq_length inside (by rw [length]; omega) member

/-- Distinct indices: in every reachable state each initially missing index is in exactly one
place; when all workers have ended, an index that is not completed is still queued; and decryption
follows exactly when every index is completed, the sequential fallback otherwise. -/
theorem parallelScheduler_conserves_work (prims : Primitives) (manifest : Manifest)
    (outputDir : Option PathBuf) (peerCount : Nat) (available : Fin peerCount → TreeSet UInt32)
    (distinct : manifest.indices.Nodup) (before session : LibrarySession)
    (completed : TreeSet UInt32)
    (loaded : (loadResumableChunkIndexes prims manifest outputDir).run before =
      .ok completed session)
    (state : ParallelDownload peerCount)
    (reach : (parallelDownloadWorkers prims manifest outputDir available).Reaches
      (.initial manifest completed session peerCount) state) :
    (∀ index ∈ missingChunks manifest completed, state.InOnePlace index) ∧
    (state.AllEnded →
      (∀ index ∈ manifest.indices, index ∉ state.completed → index ∈ state.queue) ∧
      (afterWorkers manifest state.completed = .decrypt ↔
        ∀ index ∈ manifest.indices, index ∈ state.completed) ∧
      ((∃ index ∈ manifest.indices, index ∉ state.completed) →
        ∃ firstMissing, afterWorkers manifest state.completed = .fallback firstMissing)) := by
  have resumed : ∀ index ∈ completed, index ∈ manifest.indices :=
    fun _ member => mem_indices_of_loadResumableChunkIndexes loaded member
  have conserves := Machine.invariant_of_reaches conserves_of_step
    (conserves_initial distinct completed resumed session) reach
  have one_place (index : UInt32) (member : index ∈ manifest.indices) :
      state.places index = 1 := by
    rw [conserves.places]
    exact places_initial_eq_one distinct member
  have inside (index : UInt32) (member : index ∈ state.completed) : index ∈ manifest.indices := by
    by_contra foreign
    have nothing := (conserves.places index).trans (conserves.known index foreign)
    simp [ParallelDownload.places, TreeSet.contains_iff_mem.mpr member] at nothing
  refine ⟨?_, ?_⟩
  · intro index missing
    exact inOnePlace_of_places_eq_one (one_place index (mem_missingChunks.mp missing).1)
  · intro ended
    refine ⟨?_, afterWorkers_eq_decrypt_iff inside, ?_⟩
    · intro index member missing
      obtain ⟨queued, -⟩ | ⟨-, ⟨worker, hand, -⟩, -⟩ | ⟨-, -, completed⟩ :=
        inOnePlace_of_places_eq_one (one_place index member)
      · exact List.count_pos_iff.mp (by omega)
      · obtain ⟨outcome, position⟩ := ended worker
        simp [position, DownloadWorker.inHand] at hand
      · exact absurd completed missing
    · rintro ⟨index, member, missing⟩
      cases decision : afterWorkers manifest state.completed with
      | fallback firstMissing => exact ⟨firstMissing, rfl⟩
      | decrypt =>
          exact absurd ((afterWorkers_eq_decrypt_iff inside).mp decision index member) missing

/-- A download that starts from nothing. -/
def freshSession : LibrarySession where
  disk := fun _ => ShareDir.absent
  active := some {
    paths := samplePaths, progress := DownloadProgress.empty samplePaths.shareId, dirtyChunks := 0 }

/-- A peer that has only chunk 1, and whose connection breaks at the first request. -/
def brokenRequest : List (ParallelEvent 1) :=
  [.start 0 none, .lock 0, .pop 0, .examine 0, .pop 0, .examine 0,
    .request 0 (some .brokenPipe) 5, .release 0]

/-- Two chunks, one worker: after its failed request both indices are in one place. -/
theorem parallelScheduler_conserves_work_on_two_chunks :
    (oneByteManifest [0, 1]).indices.Nodup ∧
    ∃ completed session state,
      (loadResumableChunkIndexes transparentPrimitives (oneByteManifest [0, 1]) none).run
          freshSession = .ok completed session ∧
      (parallelDownloadWorkers transparentPrimitives (oneByteManifest [0, 1]) none
          (fun _ : Fin 1 => (∅ : TreeSet UInt32).insert 1)).Reaches
        (.initial (oneByteManifest [0, 1]) completed session 1) state ∧
      state.InOnePlace 0 ∧ state.InOnePlace 1 := by
  have distinct : (oneByteManifest [0, 1]).indices.Nodup := by simp
  refine ⟨distinct, _, _, _, rfl, ⟨brokenRequest, rfl⟩, ?_⟩
  have conserves := parallelScheduler_conserves_work transparentPrimitives
    (oneByteManifest [0, 1]) none 1 (fun _ => (∅ : TreeSet UInt32).insert 1) distinct freshSession
    _ _ rfl _ ⟨brokenRequest, rfl⟩
  exact ⟨conserves.1 0 (by decide), conserves.1 1 (by decide)⟩

end

end Etle
