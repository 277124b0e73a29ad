import Etle.State.OneByteShare
import Etle.Transfer.Reconstruct
import Mathlib.Algebra.Order.BigOperators.Group.Finset

/-!
# When parallel reconstruction can block

Every result is in exactly one place: its entry is queued, a worker holds it, it is in the channel,
or the consumer has received it.  The receiving end outlives the consumer's loop, so after a failed
write nobody empties the channel: the workers get through exactly when the results still to come
fit into it.
-/

namespace Etle

section

variable {prims : Primitives} {disk : Disk} {paths : LibraryPaths} {manifest : Manifest}
  {fileKey : SymmetricKey} {workerCount : Nat}

/-- What each step of a parallel reconstruction does. -/
inductive ReconstructMove (prims : Primitives) (disk : Disk) (paths : LibraryPaths)
    (manifest : Manifest) (fileKey : SymmetricKey) (state : Reconstruction workerCount) :
    ReconstructEvent workerCount → Reconstruction workerCount → Prop
  | stop {worker : Fin workerCount} (popping : state.workers worker = .popping)
      (empty : state.queue = []) :
      ReconstructMove prims disk paths manifest fileKey state (.pop worker)
        { state with workers := Function.update state.workers worker .finished }
  | take {worker : Fin workerCount} {entry : ChunkMeta} {rest : List ChunkMeta}
      (popping : state.workers worker = .popping) (queued : state.queue = entry :: rest) :
      ReconstructMove prims disk paths manifest fileKey state (.pop worker)
        { state with
          queue := rest, workers := Function.update state.workers worker (.sending entry) }
  | send {worker : Fin workerCount} {entry : ChunkMeta}
      (holding : state.workers worker = .sending entry)
      (room : state.channel.length < 2 * workerCount) :
      ReconstructMove prims disk paths manifest fileKey state (.send worker)
        { state with
          channel := state.channel ++
            [decryptLibraryChunk prims disk paths manifest.fileId fileKey entry]
          workers := Function.update state.workers worker .popping }
  | receive {writes : Option Nat} {received : Nat} {cursor next : WriteCursor}
      {result : DecryptResult} {rest : List DecryptResult}
      (waiting : state.consumer = .receiving received cursor)
      (arrived : state.channel = result :: rest) (more : received < manifest.chunks.length)
      (consumed : consumeResult manifest.indices writes cursor result = (next, false)) :
      ReconstructMove prims disk paths manifest fileKey state (.receive writes)
        { state with channel := rest, consumer := .receiving (received + 1) next }
  | writeFails {writes : Option Nat} {received : Nat} {cursor next : WriteCursor}
      {result : DecryptResult} {rest : List DecryptResult}
      (waiting : state.consumer = .receiving received cursor)
      (arrived : state.channel = result :: rest) (more : received < manifest.chunks.length)
      (failed : consumeResult manifest.indices writes cursor result = (next, true)) :
      ReconstructMove prims disk paths manifest fileKey state (.receive writes)
        { state with channel := rest, consumer := .unwinding (received + 1) next }
  | disconnected {received : Nat} {cursor : WriteCursor}
      (waiting : state.consumer = .receiving received cursor) (empty : state.channel = [])
      (more : received < manifest.chunks.length) (finished : state.AllFinished) :
      ReconstructMove prims disk paths manifest fileKey state .disconnected
        { state with
          consumer := .joining received
            { cursor with
              firstError := some (cursor.firstError.getD
                (.peerError "parallel decrypt worker stopped unexpectedly")) } }
  | leaveLoop {received : Nat} {cursor : WriteCursor}
      (waiting : state.consumer = .receiving received cursor)
      (complete : manifest.chunks.length ≤ received) :
      ReconstructMove prims disk paths manifest fileKey state .leaveLoop
        { state with consumer := .joining received cursor }
  | join {received : Nat} {cursor : WriteCursor}
      (joining : state.consumer = .joining received cursor) (finished : state.AllFinished) :
      ReconstructMove prims disk paths manifest fileKey state .join
        { state with
          consumer := .returned cursor.written
            (reconstructOutcome prims manifest.fileId cursor) }
  | leaveScope {received : Nat} {cursor : WriteCursor}
      (unwinding : state.consumer = .unwinding received cursor) (finished : state.AllFinished) :
      ReconstructMove prims disk paths manifest fileKey state .join
        { state with consumer := .returned cursor.written (.error (.io .other)) }

/-- Every successful step is one of the listed moves. -/
theorem reconstructMove_of_step {state next : Reconstruction workerCount}
    {event : ReconstructEvent workerCount}
    (step : (decryptLibraryChunksToFileParallel prims disk paths manifest fileKey
      workerCount).step state event = some next) :
    ReconstructMove prims disk paths manifest fileKey state event next := by
  cases event with
  | pop worker =>
      simp only [decryptLibraryChunksToFileParallel, popEntry] at step
      split at step
      · obtain rfl := Option.some.inj step
        exact .stop ‹_› ‹_›
      · obtain rfl := Option.some.inj step
        exact .take ‹_› ‹_›
      · cases step
  | send worker =>
      simp only [decryptLibraryChunksToFileParallel, sendResult] at step
      split at step
      · split at step
        · obtain rfl := Option.some.inj step
          exact .send ‹_› ‹_›
        · cases step
      · cases step
  | receive writes =>
      simp only [decryptLibraryChunksToFileParallel, receiveResult] at step
      split at step
      · split at step
        · split at step
          · obtain rfl := Option.some.inj step
            exact .writeFails ‹_› ‹_› ‹_› ‹_›
          · obtain rfl := Option.some.inj step
            exact .receive ‹_› ‹_› ‹_› ‹_›
        · cases step
      · cases step
  | disconnected =>
      simp only [decryptLibraryChunksToFileParallel, receiveDisconnected] at step
      split at step
      · split at step
        · rename_i enabled
          obtain rfl := Option.some.inj step
          exact .disconnected ‹_› ‹_› enabled.1 enabled.2
        · cases step
      · cases step
  | leaveLoop =>
      simp only [decryptLibraryChunksToFileParallel, leaveReceiveLoop] at step
      split at step
      · split at step
        · cases step
        · rename_i complete
          obtain rfl := Option.some.inj step
          exact .leaveLoop ‹_› (Nat.le_of_not_lt complete)
      · cases step
  | join =>
      simp only [decryptLibraryChunksToFileParallel, joinWorkers] at step
      split at step
      · split at step
        · obtain rfl := Option.some.inj step
          exact .join ‹_› ‹_›
        · cases step
      · split at step
        · obtain rfl := Option.some.inj step
          exact .leaveScope ‹_› ‹_›
        · cases step
      · cases step

/-! ## Every step is progress -/

/-- Steps left to a worker, counting the ones its result still causes. -/
def DecryptWorker.weight : DecryptWorker → Nat
  | .popping => 1
  | .sending _ => 3
  | .finished => 0

/-- Steps left to the consumer once nothing arrives any more. -/
def Consumer.weight : Consumer → Nat
  | .receiving _ _ => 2
  | .joining _ _ => 1
  | .unwinding _ _ => 1
  | .returned _ _ => 0

/-- A bound on the steps left. -/
def Reconstruction.weight (state : Reconstruction workerCount) : Nat :=
  3 * state.queue.length + (∑ worker, (state.workers worker).weight) + state.channel.length +
    state.consumer.weight

/-- Giving one worker a new position changes the total of a share by that worker's share. -/
theorem share_update {state : Reconstruction workerCount} {worker : Fin workerCount}
    {before : DecryptWorker} (share : DecryptWorker → Nat) (after : DecryptWorker)
    (position : state.workers worker = before) :
    (∑ other, share (Function.update state.workers worker after other)) + share before =
      (∑ other, share (state.workers other)) + share after := by
  rw [← position]
  exact sum_update_add state.workers worker after share

theorem weight_lt_of_step (state : Reconstruction workerCount)
    (event : ReconstructEvent workerCount) (next : Reconstruction workerCount)
    (step : (decryptLibraryChunksToFileParallel prims disk paths manifest fileKey
      workerCount).step state event = some next) :
    next.weight < state.weight := by
  cases reconstructMove_of_step step with
  | stop popping empty =>
      have total := share_update DecryptWorker.weight .finished popping
      have popping_weight : DecryptWorker.popping.weight = 1 := rfl
      have finished_weight : DecryptWorker.finished.weight = 0 := rfl
      simp only [Reconstruction.weight, empty]
      omega
  | @take worker entry rest popping queued =>
      have total := share_update DecryptWorker.weight (.sending entry) popping
      have popping_weight : DecryptWorker.popping.weight = 1 := rfl
      have sending_weight : (DecryptWorker.sending entry).weight = 3 := rfl
      simp only [Reconstruction.weight, queued, List.length_cons]
      omega
  | @send worker entry holding room =>
      have total := share_update DecryptWorker.weight .popping holding
      have popping_weight : DecryptWorker.popping.weight = 1 := rfl
      have sending_weight : (DecryptWorker.sending entry).weight = 3 := rfl
      simp only [Reconstruction.weight, List.length_append, List.length_singleton]
      omega
  | receive waiting arrived more consumed =>
      simp only [Reconstruction.weight, waiting, arrived, List.length_cons, Consumer.weight]
      omega
  | writeFails waiting arrived more failed =>
      simp only [Reconstruction.weight, waiting, arrived, List.length_cons, Consumer.weight]
      omega
  | disconnected waiting empty more finished =>
      simp only [Reconstruction.weight, waiting, Consumer.weight]
      omega
  | leaveLoop waiting complete =>
      simp only [Reconstruction.weight, waiting, Consumer.weight]
      omega
  | join joining finished =>
      simp only [Reconstruction.weight, joining, Consumer.weight]
      omega
  | leaveScope unwinding finished =>
      simp only [Reconstruction.weight, unwinding, Consumer.weight]
      omega

/-! ## Conservation of results -/

/-- Results a worker holds. -/
def DecryptWorker.held : DecryptWorker → Nat
  | .sending _ => 1
  | .popping | .finished => 0

/-- Where the results are while the function runs with `received` of them consumed. -/
structure Reconstruction.Conserved (manifest : Manifest) (state : Reconstruction workerCount)
    (received : Nat) : Prop where
  total : state.queue.length + (∑ worker, (state.workers worker).held) +
    state.channel.length + received = manifest.chunks.length
  bounded : state.channel.length ≤ 2 * workerCount
  drained : ∀ worker, state.workers worker = .finished → state.queue = []

/-- The number of results consumed, as long as the function runs. -/
def Consumer.received? : Consumer → Option Nat
  | .receiving received _ | .joining received _ | .unwinding received _ => some received
  | .returned _ _ => none

/-- Conservation while the function runs, and what each way out of the loop knows in addition. -/
structure Reconstruction.Consistent (manifest : Manifest) (state : Reconstruction workerCount) :
    Prop where
  conserved : ∀ received, state.consumer.received? = some received →
    state.Conserved manifest received
  complete : ∀ received cursor, state.consumer = .joining received cursor →
    received = manifest.chunks.length ∨ state.AllFinished
  staffed : ∀ received cursor, state.consumer = .unwinding received cursor → 0 < workerCount

theorem consistent_initial (manifest : Manifest) :
    (Reconstruction.initial manifest workerCount).Consistent manifest := by
  refine ⟨?_, by simp [Reconstruction.initial], by simp [Reconstruction.initial]⟩
  rintro received running
  obtain rfl : 0 = received := by simpa [Reconstruction.initial, Consumer.received?] using running
  refine ⟨?_, by simp [Reconstruction.initial], by simp [Reconstruction.initial]⟩
  simp [Reconstruction.initial, DecryptWorker.held]

namespace Reconstruction.Conserved

variable {state : Reconstruction workerCount} {received : Nat} {worker : Fin workerCount}

theorem stop (conserved : state.Conserved manifest received)
    (popping : state.workers worker = .popping) (empty : state.queue = []) :
    Conserved manifest
      { state with workers := Function.update state.workers worker .finished } received := by
  have total := share_update DecryptWorker.held .finished popping
  have popping_held : DecryptWorker.popping.held = 0 := rfl
  have finished_held : DecryptWorker.finished.held = 0 := rfl
  have conserved_total := conserved.total
  refine ⟨?_, conserved.bounded, fun _ _ => empty⟩
  simp only
  omega

theorem take {entry : ChunkMeta} {rest : List ChunkMeta}
    (conserved : state.Conserved manifest received)
    (popping : state.workers worker = .popping) (queued : state.queue = entry :: rest) :
    Conserved manifest
      { state with
        queue := rest, workers := Function.update state.workers worker (.sending entry) }
      received := by
  have total := share_update DecryptWorker.held (.sending entry) popping
  have popping_held : DecryptWorker.popping.held = 0 := rfl
  have sending_held : (DecryptWorker.sending entry).held = 1 := rfl
  have conserved_total := conserved.total
  refine ⟨?_, conserved.bounded, ?_⟩
  · simp only [queued, List.length_cons] at conserved_total ⊢
    omega
  · intro other finished
    by_cases same : other = worker
    · subst same
      simp at finished
    · have empty := conserved.drained other (by simpa [same] using finished)
      simp [queued] at empty

theorem send {entry : ChunkMeta} {result : DecryptResult}
    (conserved : state.Conserved manifest received)
    (holding : state.workers worker = .sending entry)
    (room : state.channel.length < 2 * workerCount) :
    Conserved manifest
      { state with
        channel := state.channel ++ [result]
        workers := Function.update state.workers worker .popping } received := by
  have total := share_update DecryptWorker.held .popping holding
  have popping_held : DecryptWorker.popping.held = 0 := rfl
  have sending_held : (DecryptWorker.sending entry).held = 1 := rfl
  have conserved_total := conserved.total
  refine ⟨?_, ?_, ?_⟩
  · simp only [List.length_append, List.length_singleton]
    omega
  · simp only [List.length_append, List.length_singleton]
    omega
  · intro other finished
    by_cases same : other = worker
    · subst same
      simp at finished
    · exact conserved.drained other (by simpa [same] using finished)

theorem receive {result : DecryptResult} {rest : List DecryptResult} {consumer : Consumer}
    (conserved : state.Conserved manifest received) (arrived : state.channel = result :: rest) :
    Conserved manifest { state with channel := rest, consumer := consumer } (received + 1) := by
  have conserved_total := conserved.total
  have conserved_bounded := conserved.bounded
  simp only [arrived, List.length_cons] at conserved_total conserved_bounded
  refine ⟨?_, ?_, conserved.drained⟩ <;> simp only <;> omega

/-- When every worker has ended, what was not received is in the channel. -/
theorem all_in_channel (conserved : state.Conserved manifest received)
    (finished : state.AllFinished) (staffed : 0 < workerCount) :
    state.channel.length + received = manifest.chunks.length := by
  have empty := conserved.drained ⟨0, staffed⟩ (finished _)
  have none_held : (∑ worker, (state.workers worker).held) = 0 := by
    apply Finset.sum_eq_zero
    intro other _
    rw [finished other]
    rfl
  have conserved_total := conserved.total
  simp only [empty, none_held, List.length_nil] at conserved_total
  omega

/-- A worker that holds a result keeps one out of the channel. -/
theorem channel_lt {entry : ChunkMeta} (conserved : state.Conserved manifest received)
    (holding : state.workers worker = .sending entry) :
    state.channel.length + received < manifest.chunks.length := by
  have held : (state.workers worker).held ≤ ∑ other, (state.workers other).held :=
    Finset.single_le_sum (fun other _ => Nat.zero_le (state.workers other).held)
      (Finset.mem_univ worker)
  have sending_held : (DecryptWorker.sending entry).held = 1 := rfl
  rw [holding] at held
  have conserved_total := conserved.total
  omega

end Reconstruction.Conserved

/-- Every step keeps every result in exactly one place. -/
theorem consistent_of_step (state : Reconstruction workerCount)
    (event : ReconstructEvent workerCount) (next : Reconstruction workerCount)
    (consistent : state.Consistent manifest)
    (step : (decryptLibraryChunksToFileParallel prims disk paths manifest fileKey
      workerCount).step state event = some next) : next.Consistent manifest := by
  cases reconstructMove_of_step step with
  | @stop worker popping empty =>
      refine ⟨fun received running => (consistent.conserved received running).stop popping empty,
        ?_, consistent.staffed⟩
      intro received cursor joining
      refine (consistent.complete received cursor joining).imp_right fun finished => ?_
      simp [finished worker] at popping
  | @take worker entry rest popping queued =>
      refine ⟨fun received running => (consistent.conserved received running).take popping queued,
        ?_, consistent.staffed⟩
      intro received cursor joining
      refine (consistent.complete received cursor joining).imp_right fun finished => ?_
      simp [finished worker] at popping
  | @send worker entry holding room =>
      refine ⟨fun received running => (consistent.conserved received running).send holding room,
        ?_, consistent.staffed⟩
      intro received cursor joining
      refine (consistent.complete received cursor joining).imp_right fun finished => ?_
      simp [finished worker] at holding
  | @receive writes received cursor nextCursor result rest waiting arrived more consumed =>
      have conserved := consistent.conserved received (by rw [waiting]; rfl)
      refine ⟨?_, by simp, by simp⟩
      rintro count running
      obtain rfl : received + 1 = count := by simpa [Consumer.received?] using running
      exact conserved.receive arrived
  | @writeFails writes received cursor nextCursor result rest waiting arrived more failed =>
      have conserved := consistent.conserved received (by rw [waiting]; rfl)
      refine ⟨?_, by simp, ?_⟩
      · rintro count running
        obtain rfl : received + 1 = count := by simpa [Consumer.received?] using running
        exact conserved.receive arrived
      · intro count lastCursor unwinding
        have bounded := conserved.bounded
        simp only [arrived, List.length_cons] at bounded
        omega
  | @disconnected received cursor waiting empty more finished =>
      refine ⟨?_, fun _ _ _ => .inr finished, by simp⟩
      rintro count running
      obtain rfl : received = count := by simpa [Consumer.received?] using running
      have conserved := consistent.conserved received (by rw [waiting]; rfl)
      exact ⟨conserved.total, conserved.bounded, conserved.drained⟩
  | @leaveLoop received cursor waiting complete =>
      have conserved := consistent.conserved received (by rw [waiting]; rfl)
      refine ⟨?_, ?_, by simp⟩
      · rintro count running
        obtain rfl : received = count := by simpa [Consumer.received?] using running
        exact ⟨conserved.total, conserved.bounded, conserved.drained⟩
      · rintro count lastCursor joining
        obtain ⟨rfl, -⟩ : received = count ∧ cursor = lastCursor := by simpa using joining
        have total := conserved.total
        omega
  | join joining finished => exact ⟨by simp [Consumer.received?], by simp, by simp⟩
  | leaveScope unwinding finished => exact ⟨by simp [Consumer.received?], by simp, by simp⟩

theorem consistent_of_reaches {state : Reconstruction workerCount}
    (reach : (decryptLibraryChunksToFileParallel prims disk paths manifest fileKey
      workerCount).Reaches (.initial manifest workerCount) state) : state.Consistent manifest :=
  Machine.invariant_of_reaches consistent_of_step (consistent_initial manifest) reach

/-! ## Which steps are enabled -/

/-- Nothing can move although the function has not returned. -/
def Reconstruction.Stuck (prims : Primitives) (disk : Disk) (paths : LibraryPaths)
    (manifest : Manifest) (fileKey : SymmetricKey) (state : Reconstruction workerCount) : Prop :=
  (decryptLibraryChunksToFileParallel prims disk paths manifest fileKey workerCount).Blocked
      state ∧
    ¬ state.HasReturned

/-- A failed write leaves the loop while the results still to come fit into the channel. -/
def Reconstruction.Fits (manifest : Manifest) (state : Reconstruction workerCount) : Prop :=
  ∀ received cursor, state.consumer = .unwinding received cursor →
    manifest.chunks.length ≤ received + 2 * workerCount

theorem popping_ne_of_blocked {state : Reconstruction workerCount}
    (blocked : (decryptLibraryChunksToFileParallel prims disk paths manifest fileKey
      workerCount).Blocked state) (worker : Fin workerCount) :
    state.workers worker ≠ .popping := by
  intro popping
  have none_left := blocked (.pop worker)
  cases queued : state.queue <;>
    simp [decryptLibraryChunksToFileParallel, popEntry, popping, queued] at none_left

theorem full_of_blocked {state : Reconstruction workerCount}
    (blocked : (decryptLibraryChunksToFileParallel prims disk paths manifest fileKey
      workerCount).Blocked state) {worker : Fin workerCount} {entry : ChunkMeta}
    (holding : state.workers worker = .sending entry) :
    2 * workerCount ≤ state.channel.length := by
  have none_left := blocked (.send worker)
  simpa [decryptLibraryChunksToFileParallel, sendResult, holding] using none_left

theorem received_all_of_blocked {state : Reconstruction workerCount}
    (blocked : (decryptLibraryChunksToFileParallel prims disk paths manifest fileKey
      workerCount).Blocked state) {received : Nat} {cursor : WriteCursor}
    (waiting : state.consumer = .receiving received cursor) (arrived : state.channel ≠ []) :
    manifest.chunks.length ≤ received := by
  obtain ⟨result, rest, arrived⟩ := List.exists_cons_of_ne_nil arrived
  by_contra more
  have none_left := blocked (.receive none)
  simp only [decryptLibraryChunksToFileParallel, receiveResult, waiting, arrived,
    Nat.lt_of_not_le more, if_true] at none_left
  split at none_left <;> cases none_left

/-- Once every worker has ended, the consumer can always move on. -/
theorem hasReturned_of_blocked_of_finished {state : Reconstruction workerCount}
    (blocked : (decryptLibraryChunksToFileParallel prims disk paths manifest fileKey
      workerCount).Blocked state) (finished : state.AllFinished) : state.HasReturned := by
  cases phase : state.consumer with
  | receiving received cursor =>
      by_cases arrived : state.channel = []
      · have disconnected := blocked .disconnected
        have leaveLoop := blocked .leaveLoop
        simp [decryptLibraryChunksToFileParallel, receiveDisconnected, leaveReceiveLoop, phase,
          arrived, finished] at disconnected leaveLoop
        omega
      · have complete := received_all_of_blocked blocked phase arrived
        have leaveLoop := blocked .leaveLoop
        simp [decryptLibraryChunksToFileParallel, leaveReceiveLoop, phase] at leaveLoop
        omega
  | joining received cursor =>
      have join := blocked .join
      simp [decryptLibraryChunksToFileParallel, joinWorkers, phase, finished] at join
  | unwinding received cursor =>
      have join := blocked .join
      simp [decryptLibraryChunksToFileParallel, joinWorkers, phase, finished] at join
  | returned written outcome => exact ⟨written, outcome, phase⟩

/-- A consistent state in which every failed write came late enough is not stuck. -/
theorem not_stuck_of_fits {state : Reconstruction workerCount}
    (consistent : state.Consistent manifest) (fits : state.Fits manifest) :
    ¬ state.Stuck prims disk paths manifest fileKey := by
  rintro ⟨blocked, running⟩
  apply running
  apply hasReturned_of_blocked_of_finished blocked
  intro worker
  -- A worker that is neither popping nor finished holds a result, and then the channel is full.
  cases position : state.workers worker with
  | popping => exact absurd position (popping_ne_of_blocked blocked worker)
  | finished => rfl
  | sending entry =>
      exfalso
      have full := full_of_blocked blocked position
      have staffed : 0 < workerCount := Fin.pos worker
      cases phase : state.consumer with
      | receiving received cursor =>
          have room := (consistent.conserved received (by rw [phase]; rfl)).channel_lt position
          have arrived : state.channel ≠ [] := by
            intro empty
            simp [empty] at full
            omega
          have complete := received_all_of_blocked blocked phase arrived
          omega
      | joining received cursor =>
          have room := (consistent.conserved received (by rw [phase]; rfl)).channel_lt position
          obtain complete | finished := consistent.complete received cursor phase
          · omega
          · simp [finished worker] at position
      | unwinding received cursor =>
          have room := (consistent.conserved received (by rw [phase]; rfl)).channel_lt position
          have late := fits received cursor phase
          omega
      | returned written outcome => exact running ⟨written, outcome, phase⟩

/-- After a write that failed too early, the workers cannot all end. -/
theorem not_finished_of_unwinding {state : Reconstruction workerCount}
    (consistent : state.Consistent manifest) {received : Nat} {cursor : WriteCursor}
    (unwinding : state.consumer = .unwinding received cursor)
    (early : received + 2 * workerCount < manifest.chunks.length) : ¬ state.AllFinished := by
  intro finished
  have conserved := consistent.conserved received (by rw [unwinding]; rfl)
  have total := conserved.all_in_channel finished (consistent.staffed received cursor unwinding)
  have bounded := conserved.bounded
  omega

/-- A consumer that left the loop too early stays where it is. -/
theorem unwinding_of_step {state next : Reconstruction workerCount}
    {event : ReconstructEvent workerCount} (consistent : state.Consistent manifest)
    {received : Nat} {cursor : WriteCursor}
    (unwinding : state.consumer = .unwinding received cursor)
    (early : received + 2 * workerCount < manifest.chunks.length)
    (step : (decryptLibraryChunksToFileParallel prims disk paths manifest fileKey
      workerCount).step state event = some next) :
    next.consumer = .unwinding received cursor := by
  cases reconstructMove_of_step step with
  | stop | take | send => exact unwinding
  | receive waiting | writeFails waiting | disconnected waiting | leaveLoop waiting =>
      simp [unwinding] at waiting
  | join joining => simp [unwinding] at joining
  | leaveScope left finished =>
      exact absurd finished (not_finished_of_unwinding consistent unwinding early)

/-- A write that fails with more results to come than the channel holds leads into a stuck
state. -/
theorem reaches_stuck_of_unwinding {state : Reconstruction workerCount}
    (consistent : state.Consistent manifest) {received : Nat} {cursor : WriteCursor}
    (unwinding : state.consumer = .unwinding received cursor)
    (early : received + 2 * workerCount < manifest.chunks.length) :
    ∃ final, (decryptLibraryChunksToFileParallel prims disk paths manifest fileKey
        workerCount).Reaches state final ∧ final.Stuck prims disk paths manifest fileKey := by
  obtain ⟨final, reach, blocked⟩ :=
    Machine.exists_blocked_of_measure Reconstruction.weight weight_lt_of_step state
  have stays : final.Consistent manifest ∧ final.consumer = .unwinding received cursor :=
    @Machine.invariant_of_reaches _ _ _
      (fun reached => reached.Consistent manifest ∧
        reached.consumer = .unwinding received cursor)
      (fun before event after holds step =>
        ⟨consistent_of_step before event after holds.1 step,
          unwinding_of_step holds.1 holds.2 early step⟩)
      state final ⟨consistent, unwinding⟩ reach
  refine ⟨final, reach, blocked, ?_⟩
  rintro ⟨written, outcome, returned⟩
  simp [stays.2] at returned

/-! ## Failing late enough -/

/-- A write that fails in this step fails when at most `2 * workerCount` results are still to be
received. -/
def FailsLate (manifest : Manifest) (state : Reconstruction workerCount) :
    ReconstructEvent workerCount → Prop
  | .receive writes =>
      ∀ received cursor result rest, state.consumer = .receiving received cursor →
        state.channel = result :: rest →
          (consumeResult manifest.indices writes cursor result).2 = true →
            manifest.chunks.length ≤ received + 1 + 2 * workerCount
  | .pop _ | .send _ | .disconnected | .leaveLoop | .join => True

theorem fits_of_step {state next : Reconstruction workerCount}
    {event : ReconstructEvent workerCount} (fits : state.Fits manifest)
    (late : FailsLate manifest state event)
    (step : (decryptLibraryChunksToFileParallel prims disk paths manifest fileKey
      workerCount).step state event = some next) : next.Fits manifest := by
  cases reconstructMove_of_step step with
  | stop | take | send => exact fits
  | receive | disconnected | leaveLoop | join | leaveScope =>
      intro received cursor unwinding
      simp at unwinding
  | @writeFails writes received cursor nextCursor result rest waiting arrived more failed =>
      intro count lastCursor unwinding
      obtain ⟨rfl, -⟩ : received + 1 = count ∧ nextCursor = lastCursor := by simpa using unwinding
      exact late received cursor result rest waiting arrived (by rw [failed])

/-- Every run in which each failing write fails late enough avoids stuck states, and every write
that fails earlier in some run makes a stuck state reachable. -/
theorem parallelReconstruction_stuck_only_after_early_failure (prims : Primitives) (disk : Disk)
    (paths : LibraryPaths) (manifest : Manifest) (fileKey : SymmetricKey) (workerCount : Nat) :
    (∀ events state,
      (decryptLibraryChunksToFileParallel prims disk paths manifest fileKey workerCount).run
          (.initial manifest workerCount) events = some state →
        (decryptLibraryChunksToFileParallel prims disk paths manifest fileKey workerCount).Obeys
            (FailsLate manifest) (.initial manifest workerCount) events →
          ¬ state.Stuck prims disk paths manifest fileKey) ∧
    (∀ state event next,
      (decryptLibraryChunksToFileParallel prims disk paths manifest fileKey workerCount).Reaches
          (.initial manifest workerCount) state →
        (decryptLibraryChunksToFileParallel prims disk paths manifest fileKey workerCount).step
            state event = some next →
          ¬ FailsLate manifest state event →
            ∃ final, (decryptLibraryChunksToFileParallel prims disk paths manifest fileKey
                workerCount).Reaches next final ∧
              final.Stuck prims disk paths manifest fileKey) := by
  constructor
  · intro events state run obeys
    have holds : state.Consistent manifest ∧ state.Fits manifest :=
      @Machine.invariant_of_obeys _ _ _ (FailsLate manifest)
        (fun reached => reached.Consistent manifest ∧ reached.Fits manifest)
        (fun before event after holds late step =>
          ⟨consistent_of_step before event after holds.1 step, fits_of_step holds.2 late step⟩)
        _ state events
        ⟨consistent_initial manifest, by simp [Reconstruction.Fits, Reconstruction.initial]⟩
        obeys run
    exact not_stuck_of_fits holds.1 holds.2
  · intro state event next reach step early
    have consistent :=
      consistent_of_step state event next (consistent_of_reaches reach) step
    cases reconstructMove_of_step step with
    | stop | take | send | disconnected | leaveLoop | join | leaveScope =>
        exact absurd trivial early
    | @receive writes received cursor nextCursor result rest waiting arrived more consumed =>
        refine absurd ?_ early
        intro count lastCursor other others waiting' arrived' failed
        simp_all
    | @writeFails writes received cursor nextCursor result rest waiting arrived more failed =>
        apply reaches_stuck_of_unwinding consistent rfl
        by_contra late
        apply early
        intro count lastCursor other others waiting' arrived' _
        obtain ⟨rfl, -⟩ : received = count ∧ cursor = lastCursor := by
          simpa [waiting] using waiting'
        omega

end

/-! ## A full output disk -/

/-- Six chunks, two workers, and a first write that fails: one worker fills the channel of four
results and holds a fifth one that nobody will receive. -/
theorem parallelReconstruction_blocks_on_full_disk :
    ∃ state,
      (decryptLibraryChunksToFileParallel transparentPrimitives oneByteDisk samplePaths
          (oneByteManifest [0, 1, 2, 3, 4, 5]) sampleKey 2).run
        (.initial (oneByteManifest [0, 1, 2, 3, 4, 5]) 2)
        [.pop 0, .send 0, .receive (some 0), .pop 0, .send 0, .pop 0, .send 0, .pop 0, .send 0,
          .pop 0, .send 0, .pop 0, .pop 1] = some state ∧
      state.Stuck transparentPrimitives oneByteDisk samplePaths
        (oneByteManifest [0, 1, 2, 3, 4, 5]) sampleKey := by
  refine ⟨_, rfl, ?_, ?_⟩
  · intro event
    match event with
    | .pop 0 | .pop 1 | .send 0 | .send 1 => rfl
    | .receive _ | .disconnected | .leaveLoop | .join => rfl
  · rintro ⟨written, outcome, returned⟩
    cases returned

end Etle
