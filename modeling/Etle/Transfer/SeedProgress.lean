import Etle.Crypto.Transparent
import Etle.Transfer.Seed
import Mathlib.Algebra.Order.BigOperators.Group.Finset

/-!
# When the seed pipeline can block

While the writer lives, every thread finds someone to serve it.  Once the writer has failed, each
worker stops at its next send, and the reader has nobody left to empty the channel of plain chunks:
it gets through exactly when what it still has to send fits into that channel and into the hands of
the workers that were waiting.
-/

namespace Etle

section

variable {prims : Primitives} {fileId : FileId} {fileKey : SymmetricKey} {workerCount : Nat}

/-- Taking this result ends the writer: it is an error, or staging it fails. -/
def EndsWriter (failure : Option ErrorKind) : SeedResult → Prop
  | .error _ => True
  | .ok _ => failure ≠ none

/-- What each step of the pipeline does. -/
inductive SeedMove (prims : Primitives) (fileId : FileId) (fileKey : SymmetricKey)
    (state : SeedPipeline workerCount) : SeedEvent workerCount → SeedPipeline workerCount → Prop
  | read {index : UInt32} {data : Bytes} {rest : List Bytes} {failure : Option ErrorKind}
      (reading : state.reader = .reading index { reads := data :: rest, failure }) :
      SeedMove prims fileId fileKey state .read
        { state with reader := .sending { index, data } { reads := rest, failure } }
  | endOfFile {index : UInt32}
      (reading : state.reader = .reading index { reads := [], failure := none }) :
      SeedMove prims fileId fileKey state .read { state with reader := .joining }
  | readFails {index : UInt32} {kind : ErrorKind}
      (reading : state.reader = .reading index { reads := [], failure := some kind }) :
      SeedMove prims fileId fileKey state .read { state with reader := .failed (.io kind) }
  | sendPlain {chunk : SeedPlainChunk} {script : InputScript}
      (sending : state.reader = .sending chunk script)
      (room : state.plain.length < 2 * workerCount)
      (increment : chunk.index.toNat + 1 < UInt32.size) :
      SeedMove prims fileId fileKey state .sendPlain
        { state with
          plain := state.plain ++ [chunk], reader := .reading (chunk.index + 1) script }
  | sendLast {chunk : SeedPlainChunk} {script : InputScript}
      (sending : state.reader = .sending chunk script)
      (room : state.plain.length < 2 * workerCount)
      (overflow : UInt32.size ≤ chunk.index.toNat + 1) :
      SeedMove prims fileId fileKey state .sendPlain
        { state with
          plain := state.plain ++ [chunk], reader := .failed (.file .tooManyChunks) }
  | lock {worker : Fin workerCount} (idle : state.workers worker = .idle)
      (free : ∀ other, state.workers other ≠ .receiving) :
      SeedMove prims fileId fileKey state (.lock worker)
        { state with workers := Function.update state.workers worker .receiving }
  | receive {worker : Fin workerCount} {chunk : SeedPlainChunk} {rest : List SeedPlainChunk}
      (receiving : state.workers worker = .receiving) (arrived : state.plain = chunk :: rest) :
      SeedMove prims fileId fileKey state (.receive worker)
        { state with
          plain := rest, workers := Function.update state.workers worker (.encrypting chunk) }
  | disconnected {worker : Fin workerCount} (receiving : state.workers worker = .receiving)
      (empty : state.plain = []) (dropped : state.reader.dropped = true) :
      SeedMove prims fileId fileKey state (.disconnected worker)
        { state with workers := Function.update state.workers worker .finished }
  | send {worker : Fin workerCount} {nonce : Nonce} {chunk : SeedPlainChunk}
      (holding : state.workers worker = .encrypting chunk) (alive : state.writer.alive = true)
      (room : state.encrypted.length < 2 * workerCount) :
      SeedMove prims fileId fileKey state (.send worker nonce)
        { state with
          encrypted := state.encrypted ++ [encryptSeedChunk prims fileId fileKey nonce chunk]
          workers := Function.update state.workers worker .idle }
  | giveUp {worker : Fin workerCount} {nonce : Nonce} {chunk : SeedPlainChunk}
      (holding : state.workers worker = .encrypting chunk) (dead : state.writer.alive = false) :
      SeedMove prims fileId fileKey state (.send worker nonce)
        { state with workers := Function.update state.workers worker .finished }
  | write {collected : List ChunkMeta} {chunk : SeedEncryptedChunk} {rest : List SeedResult}
      (receiving : state.writer = .receiving collected)
      (arrived : state.encrypted = .ok chunk :: rest) :
      SeedMove prims fileId fileKey state (.write none)
        { state with
          writer := .receiving (collected ++ [chunk.entry])
          encrypted := rest
          staged := Function.update state.staged chunk.entry.index (some chunk.ciphertext) }
  | writeFails {failure : Option ErrorKind} {collected : List ChunkMeta} {result : SeedResult}
      {rest : List SeedResult} {error : NetworkError}
      (receiving : state.writer = .receiving collected)
      (arrived : state.encrypted = result :: rest) (ends : EndsWriter failure result) :
      SeedMove prims fileId fileKey state (.write failure)
        { state with writer := .ended (.error error), encrypted := [] }
  | finishWriter {collected : List ChunkMeta} (receiving : state.writer = .receiving collected)
      (empty : state.encrypted = []) (finished : state.AllFinished) :
      SeedMove prims fileId fileKey state .finishWriter
        { state with writer := .ended (.ok (sortByIndex collected)) }
  | join {outcome : Except NetworkError (List ChunkMeta)} (joining : state.reader = .joining)
      (ended : state.writer = .ended outcome) (finished : state.AllFinished) :
      SeedMove prims fileId fileKey state .join { state with reader := .returned outcome }
  | leaveScope {error : NetworkError} {outcome : Except NetworkError (List ChunkMeta)}
      (failed : state.reader = .failed error) (ended : state.writer = .ended outcome)
      (finished : state.AllFinished) :
      SeedMove prims fileId fileKey state .join { state with reader := .returned (.error error) }

/-- Every successful step is one of the listed moves. -/
theorem seedMove_of_step {state next : SeedPipeline workerCount} {event : SeedEvent workerCount}
    (step : (encryptFileToStagingParallel prims fileId fileKey workerCount).step state event =
      some next) : SeedMove prims fileId fileKey state event next := by
  cases event with
  | read =>
      simp only [encryptFileToStagingParallel, readInput] at step
      split at step
      · obtain rfl := Option.some.inj step
        exact .read ‹_›
      · obtain rfl := Option.some.inj step
        exact .endOfFile ‹_›
      · obtain rfl := Option.some.inj step
        exact .readFails ‹_›
      · cases step
  | sendPlain =>
      simp only [encryptFileToStagingParallel, sendPlainChunk] at step
      split at step
      · split at step
        · obtain rfl := Option.some.inj step
          split
          · exact .sendPlain ‹_› ‹_› ‹_›
          · exact .sendLast ‹_› ‹_› (Nat.le_of_not_lt ‹_›)
        · cases step
      · cases step
  | lock worker =>
      simp only [encryptFileToStagingParallel, lockReceiver] at step
      split at step
      · rename_i enabled
        obtain rfl := Option.some.inj step
        exact .lock enabled.1 enabled.2
      · cases step
  | receive worker =>
      simp only [encryptFileToStagingParallel, receivePlainChunk] at step
      split at step
      · obtain rfl := Option.some.inj step
        exact .receive ‹_› ‹_›
      · cases step
  | disconnected worker =>
      simp only [encryptFileToStagingParallel, receiveNothing] at step
      split at step
      · rename_i enabled
        obtain rfl := Option.some.inj step
        exact .disconnected enabled.1 enabled.2.1 enabled.2.2
      · cases step
  | send worker nonce =>
      simp only [encryptFileToStagingParallel, sendEncrypted] at step
      split at step
      · split at step
        · split at step
          · obtain rfl := Option.some.inj step
            exact .send ‹_› ‹_› ‹_›
          · cases step
        · rename_i dead
          obtain rfl := Option.some.inj step
          exact .giveUp ‹_› (by simpa using dead)
      · cases step
  | write failure =>
      simp only [encryptFileToStagingParallel, writeStaged] at step
      split at step
      · rename_i receiving arrived
        obtain rfl := Option.some.inj step
        exact .writeFails receiving arrived trivial
      · rename_i receiving arrived
        split at step
        · obtain rfl := Option.some.inj step
          exact .writeFails receiving arrived (by simp [EndsWriter])
        · obtain rfl := Option.some.inj step
          exact .write receiving arrived
      · cases step
  | finishWriter =>
      simp only [encryptFileToStagingParallel, finishWriter] at step
      split at step
      · split at step
        · obtain rfl := Option.some.inj step
          exact .finishWriter ‹_› ‹_› ‹_›
        · cases step
      · cases step
  | join =>
      simp only [encryptFileToStagingParallel, joinThreads] at step
      split at step
      · split at step
        · obtain rfl := Option.some.inj step
          exact .join ‹_› ‹_› ‹_›
        · cases step
      · split at step
        · obtain rfl := Option.some.inj step
          exact .leaveScope ‹_› ‹_› ‹_›
        · cases step
      · cases step

/-! ## Every step is progress -/

/-- Steps left to the reader, counting the ones its chunks still cause. -/
def SeedReader.weight : SeedReader → Nat
  | .reading _ script => 6 * script.reads.length + 2
  | .sending _ script => 6 * script.reads.length + 7
  | .joining | .failed _ => 1
  | .returned _ => 0

/-- Steps left to a worker, counting the ones its result still causes. -/
def SeedWorker.weight : SeedWorker → Nat
  | .idle => 2
  | .receiving => 1
  | .encrypting _ => 4
  | .finished => 0

/-- Steps left to the writer once nothing arrives any more. -/
def SeedWriter.weight : SeedWriter → Nat
  | .receiving _ => 1
  | .ended _ => 0

/-- A bound on the steps left. -/
def SeedPipeline.weight (state : SeedPipeline workerCount) : Nat :=
  state.reader.weight + 4 * state.plain.length + (∑ worker, (state.workers worker).weight) +
    state.encrypted.length + state.writer.weight

/-- Giving one worker a new position changes the total of a share by that worker's share. -/
theorem seedShare_update {state : SeedPipeline workerCount} {worker : Fin workerCount}
    {before : SeedWorker} (share : SeedWorker → Nat) (after : SeedWorker)
    (position : state.workers worker = before) :
    (∑ other, share (Function.update state.workers worker after other)) + share before =
      (∑ other, share (state.workers other)) + share after := by
  rw [← position]
  exact sum_update_add state.workers worker after share

theorem seedWeight_lt_of_step (state : SeedPipeline workerCount) (event : SeedEvent workerCount)
    (next : SeedPipeline workerCount)
    (step : (encryptFileToStagingParallel prims fileId fileKey workerCount).step state event =
      some next) : next.weight < state.weight := by
  cases seedMove_of_step step with
  | read reading | endOfFile reading | readFails reading =>
      simp only [SeedPipeline.weight, reading, SeedReader.weight, List.length_cons]
      omega
  | sendPlain sending | sendLast sending =>
      simp only [SeedPipeline.weight, sending, SeedReader.weight, List.length_append,
        List.length_singleton]
      omega
  | lock idle free =>
      have total := seedShare_update SeedWorker.weight .receiving idle
      have idle_weight : SeedWorker.idle.weight = 2 := rfl
      have receiving_weight : SeedWorker.receiving.weight = 1 := rfl
      simp only [SeedPipeline.weight]
      omega
  | @receive worker chunk rest receiving arrived =>
      have total := seedShare_update SeedWorker.weight (.encrypting chunk) receiving
      have receiving_weight : SeedWorker.receiving.weight = 1 := rfl
      have encrypting_weight : (SeedWorker.encrypting chunk).weight = 4 := rfl
      simp only [SeedPipeline.weight, arrived, List.length_cons]
      omega
  | disconnected receiving empty dropped =>
      have total := seedShare_update SeedWorker.weight .finished receiving
      have receiving_weight : SeedWorker.receiving.weight = 1 := rfl
      have finished_weight : SeedWorker.finished.weight = 0 := rfl
      simp only [SeedPipeline.weight]
      omega
  | @send worker nonce chunk holding alive room =>
      have total := seedShare_update SeedWorker.weight .idle holding
      have idle_weight : SeedWorker.idle.weight = 2 := rfl
      have encrypting_weight : (SeedWorker.encrypting chunk).weight = 4 := rfl
      simp only [SeedPipeline.weight, List.length_append, List.length_singleton]
      omega
  | @giveUp worker nonce chunk holding dead =>
      have total := seedShare_update SeedWorker.weight .finished holding
      have finished_weight : SeedWorker.finished.weight = 0 := rfl
      have encrypting_weight : (SeedWorker.encrypting chunk).weight = 4 := rfl
      simp only [SeedPipeline.weight]
      omega
  | write receiving arrived =>
      simp only [SeedPipeline.weight, receiving, arrived, SeedWriter.weight, List.length_cons]
      omega
  | writeFails receiving arrived =>
      simp only [SeedPipeline.weight, receiving, SeedWriter.weight, List.length_nil]
      omega
  | finishWriter receiving empty finished =>
      simp only [SeedPipeline.weight, receiving, SeedWriter.weight]
      omega
  | join joining ended finished =>
      simp only [SeedPipeline.weight, joining, SeedReader.weight]
      omega
  | leaveScope failed ended finished =>
      simp only [SeedPipeline.weight, failed, SeedReader.weight]
      omega

/-! ## What the reader still has to get rid of -/

/-- The number of chunks the reader will still send: one per buffer, up to the last index. -/
def SeedReader.unsent : SeedReader → Nat
  | .reading index script => min script.reads.length (UInt32.size - index.toNat)
  | .sending chunk script => 1 + min script.reads.length (UInt32.size - 1 - chunk.index.toNat)
  | .joining | .failed _ | .returned _ => 0

/-- A worker that can still take a plain chunk. -/
def SeedWorker.ready : SeedWorker → Nat
  | .idle | .receiving => 1
  | .encrypting _ | .finished => 0

/-- Plain chunks that no worker has taken yet. -/
def SeedPipeline.untaken (state : SeedPipeline workerCount) : Nat :=
  state.reader.unsent + state.plain.length

/-- Workers that can still take a plain chunk. -/
def SeedPipeline.readyWorkers (state : SeedPipeline workerCount) : Nat :=
  ∑ worker, (state.workers worker).ready

theorem unsent_read (index : UInt32) (data : Bytes) (rest : List Bytes)
    (failure : Option ErrorKind) :
    (SeedReader.sending { index, data } { reads := rest, failure }).unsent =
      (SeedReader.reading index { reads := data :: rest, failure }).unsent := by
  have bound : index.toNat < UInt32.size := index.toNat_lt
  simp only [SeedReader.unsent, List.length_cons]
  omega

theorem unsent_sendPlain (chunk : SeedPlainChunk) (script : InputScript)
    (increment : chunk.index.toNat + 1 < UInt32.size) :
    (SeedReader.reading (chunk.index + 1) script).unsent + 1 =
      (SeedReader.sending chunk script).unsent := by
  have succ : (chunk.index + 1).toNat = chunk.index.toNat + 1 := by
    rw [UInt32.toNat_add]
    exact Nat.mod_eq_of_lt increment
  simp only [SeedReader.unsent, succ]
  omega

theorem unsent_eq_zero_of_dropped {reader : SeedReader} (dropped : reader.dropped = true) :
    reader.unsent = 0 := by
  cases reader with
  | reading | sending => simp [SeedReader.dropped] at dropped
  | joining | failed | returned => rfl

/-- After the writer is gone, a chunk is taken only by a worker that then never takes another. -/
theorem untaken_of_step {state next : SeedPipeline workerCount} {event : SeedEvent workerCount}
    (dead : state.writer.alive = false)
    (step : (encryptFileToStagingParallel prims fileId fileKey workerCount).step state event =
      some next) :
    next.writer.alive = false ∧
      (next.untaken + state.readyWorkers = state.untaken + next.readyWorkers ∨
        (state.untaken = 0 ∧ next.untaken = 0)) := by
  cases seedMove_of_step step with
  | read reading =>
      refine ⟨dead, .inl ?_⟩
      simp only [SeedPipeline.untaken, SeedPipeline.readyWorkers, reading, unsent_read]
  | endOfFile reading | readFails reading =>
      refine ⟨dead, .inl ?_⟩
      simp [SeedPipeline.untaken, SeedPipeline.readyWorkers, reading, SeedReader.unsent]
  | @sendPlain chunk script sending room increment =>
      have sent := unsent_sendPlain chunk script increment
      refine ⟨dead, .inl ?_⟩
      simp only [SeedPipeline.untaken, SeedPipeline.readyWorkers, sending, List.length_append,
        List.length_singleton]
      omega
  | sendLast sending room overflow =>
      refine ⟨dead, .inl ?_⟩
      simp only [SeedPipeline.untaken, SeedPipeline.readyWorkers, sending, List.length_append,
        List.length_singleton, SeedReader.unsent]
      omega
  | lock idle free =>
      have total := seedShare_update SeedWorker.ready .receiving idle
      have idle_ready : SeedWorker.idle.ready = 1 := rfl
      have receiving_ready : SeedWorker.receiving.ready = 1 := rfl
      refine ⟨dead, .inl ?_⟩
      simp only [SeedPipeline.untaken, SeedPipeline.readyWorkers]
      omega
  | @receive worker chunk rest receiving arrived =>
      have total := seedShare_update SeedWorker.ready (.encrypting chunk) receiving
      have receiving_ready : SeedWorker.receiving.ready = 1 := rfl
      have encrypting_ready : (SeedWorker.encrypting chunk).ready = 0 := rfl
      refine ⟨dead, .inl ?_⟩
      simp only [SeedPipeline.untaken, SeedPipeline.readyWorkers, arrived, List.length_cons]
      omega
  | disconnected receiving empty dropped =>
      have none_left := unsent_eq_zero_of_dropped dropped
      refine ⟨dead, .inr ?_⟩
      simp [SeedPipeline.untaken, empty, none_left]
  | @giveUp worker nonce chunk holding _ =>
      have total := seedShare_update SeedWorker.ready .finished holding
      have finished_ready : SeedWorker.finished.ready = 0 := rfl
      have encrypting_ready : (SeedWorker.encrypting chunk).ready = 0 := rfl
      refine ⟨dead, .inl ?_⟩
      simp only [SeedPipeline.untaken, SeedPipeline.readyWorkers]
      omega
  | send holding alive room => simp [dead] at alive
  | write receiving | writeFails receiving | finishWriter receiving =>
      simp [receiving, SeedWriter.alive] at dead
  | join joining ended finished =>
      refine ⟨dead, .inl ?_⟩
      simp [SeedPipeline.untaken, SeedPipeline.readyWorkers, joining, SeedReader.unsent]
  | leaveScope failed ended finished =>
      refine ⟨dead, .inl ?_⟩
      simp [SeedPipeline.untaken, SeedPipeline.readyWorkers, failed, SeedReader.unsent]

/-! ## Invariants -/

/-- The channel bound, and why a worker has ended. -/
structure SeedPipeline.Consistent (state : SeedPipeline workerCount) : Prop where
  bounded : state.plain.length ≤ 2 * workerCount
  ended : ∀ worker, state.workers worker = .finished →
    state.writer.alive = false ∨ state.untaken = 0

theorem seedConsistent_initial (script : InputScript) :
    (SeedPipeline.initial script workerCount).Consistent :=
  ⟨by simp [SeedPipeline.initial], by simp [SeedPipeline.initial]⟩

/-- A step that ends no worker and takes nothing keeps the reasons why workers have ended. -/
theorem ended_of_update {state : SeedPipeline workerCount} {worker : Fin workerCount}
    {position : SeedWorker} {reason : Prop}
    (ended : ∀ other, state.workers other = .finished → reason) (active : position ≠ .finished) :
    ∀ other, Function.update state.workers worker position other = .finished → reason := by
  intro other finished
  by_cases same : other = worker
  · subst same
    simp [active] at finished
  · exact ended other (by simpa [same] using finished)

theorem seedConsistent_of_step (state : SeedPipeline workerCount) (event : SeedEvent workerCount)
    (next : SeedPipeline workerCount) (consistent : state.Consistent)
    (step : (encryptFileToStagingParallel prims fileId fileKey workerCount).step state event =
      some next) : next.Consistent := by
  obtain ⟨bounded, ended⟩ := consistent
  cases seedMove_of_step step with
  | read reading =>
      refine ⟨bounded, ?_⟩
      simpa only [SeedPipeline.untaken, unsent_read, ← reading] using ended
  | endOfFile reading | readFails reading =>
      refine ⟨bounded, ?_⟩
      simpa [SeedPipeline.untaken, SeedReader.unsent, reading] using ended
  | @sendPlain chunk script sending room increment =>
      refine ⟨by simp; omega, fun worker finished => (ended worker finished).imp_right ?_⟩
      simp [SeedPipeline.untaken, sending, SeedReader.unsent]
  | @sendLast chunk script sending room overflow =>
      refine ⟨by simp; omega, fun worker finished => (ended worker finished).imp_right ?_⟩
      simp [SeedPipeline.untaken, sending, SeedReader.unsent]
  | lock idle free => exact ⟨bounded, ended_of_update ended (by simp)⟩
  | @receive worker chunk rest receiving arrived =>
      simp only [arrived, List.length_cons] at bounded
      refine ⟨by simp only; omega, ended_of_update ?_ (by simp)⟩
      refine fun other finished => (ended other finished).imp_right ?_
      simp [SeedPipeline.untaken, arrived]
  | disconnected receiving empty dropped =>
      refine ⟨bounded, fun _ _ => .inr ?_⟩
      simp [SeedPipeline.untaken, empty, unsent_eq_zero_of_dropped dropped]
  | send holding alive room => exact ⟨bounded, ended_of_update ended (by simp)⟩
  | giveUp holding dead => exact ⟨bounded, fun _ _ => .inl dead⟩
  | write receiving arrived =>
      refine ⟨bounded, fun worker finished => (ended worker finished).imp_left ?_⟩
      simp [receiving, SeedWriter.alive]
  | writeFails | finishWriter => exact ⟨bounded, fun _ _ => .inl rfl⟩
  | join joining ended' finished =>
      refine ⟨bounded, ?_⟩
      simpa [SeedPipeline.untaken, SeedReader.unsent, joining] using ended
  | leaveScope failed ended' finished =>
      refine ⟨bounded, ?_⟩
      simpa [SeedPipeline.untaken, SeedReader.unsent, failed] using ended

/-- Once the writer is gone, what no worker has taken fits into the channel and into the hands of
the workers that are ready. -/
def SeedPipeline.Fits (state : SeedPipeline workerCount) : Prop :=
  state.writer.alive = false → state.untaken ≤ state.readyWorkers + 2 * workerCount

/-- A writer that fails in this step fails when what no worker has taken fits into the channel and
into the hands of the workers that are ready. -/
def WriterFailsLate (state : SeedPipeline workerCount) : SeedEvent workerCount → Prop
  | .write failure =>
      ∀ result rest, state.encrypted = result :: rest → EndsWriter failure result →
        state.untaken ≤ state.readyWorkers + 2 * workerCount
  | .read | .sendPlain | .lock _ | .receive _ | .disconnected _ | .send _ _ | .finishWriter
  | .join => True

theorem seedFits_of_step (staffed : 0 < workerCount) {state next : SeedPipeline workerCount}
    {event : SeedEvent workerCount} (consistent : state.Consistent) (fits : state.Fits)
    (late : WriterFailsLate state event)
    (step : (encryptFileToStagingParallel prims fileId fileKey workerCount).step state event =
      some next) : next.Fits := by
  intro dead
  cases alive : state.writer.alive with
  | false =>
      have before := fits alive
      obtain ⟨-, balance | ⟨-, none_left⟩⟩ := untaken_of_step alive step <;> omega
  | true =>
      -- Only a failing write and the regular end of the writer drop its receiver.
      cases seedMove_of_step step with
      | read | endOfFile | readFails | sendPlain | sendLast | lock | receive | disconnected | send
      | giveUp | join | leaveScope => simp [alive] at dead
      | write => simp [SeedWriter.alive] at dead
      | writeFails receiving arrived ends => exact late _ _ arrived ends
      | finishWriter receiving empty finished =>
          obtain dead | none_left := consistent.ended ⟨0, staffed⟩ (finished _)
          · simp [alive] at dead
          · simp only [SeedPipeline.untaken] at none_left ⊢
            omega

/-! ## Which steps are enabled -/

/-- Nothing can move although the function has not returned. -/
def SeedPipeline.Stuck (prims : Primitives) (fileId : FileId) (fileKey : SymmetricKey)
    (state : SeedPipeline workerCount) : Prop :=
  (encryptFileToStagingParallel prims fileId fileKey workerCount).Blocked state ∧
    ¬ state.HasReturned

section Blocked

variable {state : SeedPipeline workerCount}
  (blocked : (encryptFileToStagingParallel prims fileId fileKey workerCount).Blocked state)

include blocked

theorem reading_ne_of_blocked (index : UInt32) (script : InputScript) :
    state.reader ≠ .reading index script := by
  intro reading
  have none_left := blocked .read
  obtain ⟨reads, failure⟩ := script
  cases reads <;> cases failure <;>
    simp [encryptFileToStagingParallel, readInput, reading] at none_left

theorem plain_full_of_blocked {chunk : SeedPlainChunk} {script : InputScript}
    (sending : state.reader = .sending chunk script) : 2 * workerCount ≤ state.plain.length := by
  have none_left := blocked .sendPlain
  simpa [encryptFileToStagingParallel, sendPlainChunk, sending] using none_left

theorem encrypted_empty_of_blocked (alive : state.writer.alive = true) :
    state.encrypted = [] := by
  cases phase : state.writer with
  | ended outcome => simp [phase, SeedWriter.alive] at alive
  | receiving collected =>
      have none_left := blocked (.write none)
      cases arrived : state.encrypted with
      | nil => rfl
      | cons result rest =>
          cases result <;>
            simp [encryptFileToStagingParallel, writeStaged, phase, arrived] at none_left

/-- No worker holds a chunk: it could send its result or the writer could make room. -/
theorem encrypting_ne_of_blocked (worker : Fin workerCount) (chunk : SeedPlainChunk) :
    state.workers worker ≠ .encrypting chunk := by
  intro holding
  have none_left := blocked (.send worker ⟨Vector.replicate 24 0⟩)
  have staffed : 0 < workerCount := Fin.pos worker
  cases alive : state.writer.alive with
  | false =>
      simp [encryptFileToStagingParallel, sendEncrypted, holding, alive] at none_left
  | true =>
      have empty := encrypted_empty_of_blocked blocked alive
      simp [encryptFileToStagingParallel, sendEncrypted, holding, alive, empty] at none_left
      omega

/-- No worker waits for a chunk: it would find one, the end, or a reader that can send. -/
theorem receiving_ne_of_blocked (worker : Fin workerCount) :
    state.workers worker ≠ .receiving := by
  intro receiving
  have staffed : 0 < workerCount := Fin.pos worker
  have empty : state.plain = [] := by
    have none_left := blocked (.receive worker)
    cases arrived : state.plain with
    | nil => rfl
    | cons chunk rest =>
        simp [encryptFileToStagingParallel, receivePlainChunk, receiving, arrived] at none_left
  have open_end : state.reader.dropped = false := by
    have none_left := blocked (.disconnected worker)
    simpa [encryptFileToStagingParallel, receiveNothing, receiving, empty] using none_left
  cases phase : state.reader with
  | reading index script => exact reading_ne_of_blocked blocked index script phase
  | sending chunk script =>
      have full := plain_full_of_blocked blocked phase
      simp only [empty, List.length_nil] at full
      omega
  | joining | failed | returned => simp [phase, SeedReader.dropped] at open_end

theorem allFinished_of_blocked : state.AllFinished := by
  intro worker
  cases position : state.workers worker with
  | finished => rfl
  | receiving => exact absurd position (receiving_ne_of_blocked blocked worker)
  | encrypting chunk => exact absurd position (encrypting_ne_of_blocked blocked worker chunk)
  | idle =>
      have none_left := blocked (.lock worker)
      have free := receiving_ne_of_blocked blocked
      simp [encryptFileToStagingParallel, lockReceiver, position, free] at none_left

theorem writer_dead_of_blocked : state.writer.alive = false := by
  cases phase : state.writer with
  | ended outcome => rfl
  | receiving collected =>
      have empty := encrypted_empty_of_blocked blocked (by rw [phase]; rfl)
      have none_left := blocked .finishWriter
      simp [encryptFileToStagingParallel, finishWriter, phase, empty,
        allFinished_of_blocked blocked] at none_left

end Blocked

/-- With at least one worker, a pipeline whose writer failed late enough is not stuck. -/
theorem seed_not_stuck_of_fits {state : SeedPipeline workerCount} (fits : state.Fits) :
    ¬ state.Stuck prims fileId fileKey := by
  rintro ⟨blocked, running⟩
  have finished := allFinished_of_blocked blocked
  have dead := writer_dead_of_blocked blocked
  obtain ⟨outcome, ended⟩ : ∃ outcome, state.writer = .ended outcome := by
    cases phase : state.writer with
    | receiving collected => simp [phase, SeedWriter.alive] at dead
    | ended outcome => exact ⟨outcome, rfl⟩
  cases phase : state.reader with
  | reading index script => exact reading_ne_of_blocked blocked index script phase
  | sending chunk script =>
      have full := plain_full_of_blocked blocked phase
      have capacity := fits dead
      have none_ready : state.readyWorkers = 0 := by
        apply Finset.sum_eq_zero
        intro worker _
        rw [finished worker]
        rfl
      simp only [SeedPipeline.untaken, phase, SeedReader.unsent] at capacity
      omega
  | joining =>
      have none_left := blocked .join
      simp [encryptFileToStagingParallel, joinThreads, phase, ended, finished] at none_left
  | failed error =>
      have none_left := blocked .join
      simp [encryptFileToStagingParallel, joinThreads, phase, ended, finished] at none_left
  | returned outcome => exact running ⟨outcome, phase⟩

/-- After a writer that failed too early, the reader cannot come to its end. -/
theorem seed_reaches_stuck_of_overfull {state : SeedPipeline workerCount}
    (consistent : state.Consistent) (dead : state.writer.alive = false)
    (early : state.readyWorkers + 2 * workerCount < state.untaken) :
    ∃ final, (encryptFileToStagingParallel prims fileId fileKey workerCount).Reaches state final ∧
      final.Stuck prims fileId fileKey := by
  obtain ⟨final, reach, blocked⟩ :=
    Machine.exists_blocked_of_measure SeedPipeline.weight seedWeight_lt_of_step state
  have stays : final.Consistent ∧ final.writer.alive = false ∧
      final.readyWorkers + 2 * workerCount < final.untaken :=
    @Machine.invariant_of_reaches _ _ _
      (fun reached => reached.Consistent ∧ reached.writer.alive = false ∧
        reached.readyWorkers + 2 * workerCount < reached.untaken)
      (fun before event after holds step => by
        obtain ⟨still_dead, balance | ⟨empty, -⟩⟩ := untaken_of_step holds.2.1 step
        · exact ⟨seedConsistent_of_step before event after holds.1 step, still_dead, by omega⟩
        · omega)
      state final ⟨consistent, dead, early⟩ reach
  refine ⟨final, reach, blocked, ?_⟩
  rintro ⟨outcome, returned⟩
  obtain ⟨⟨bounded, -⟩, -, overfull⟩ := stays
  simp only [SeedPipeline.untaken, returned, SeedReader.unsent] at overfull
  omega

/-- With at least one worker: every run in which a failing writer fails late enough avoids stuck
states, and a writer that fails earlier in some run makes a stuck state reachable. -/
theorem seedPipeline_stuck_only_after_early_failure (prims : Primitives) (fileId : FileId)
    (fileKey : SymmetricKey) (script : InputScript) (workerCount : Nat)
    (staffed : 1 ≤ workerCount) :
    (∀ events state,
      (encryptFileToStagingParallel prims fileId fileKey workerCount).run
          (.initial script workerCount) events = some state →
        (encryptFileToStagingParallel prims fileId fileKey workerCount).Obeys WriterFailsLate
            (.initial script workerCount) events →
          ¬ state.Stuck prims fileId fileKey) ∧
    (∀ state event next,
      (encryptFileToStagingParallel prims fileId fileKey workerCount).Reaches
          (.initial script workerCount) state →
        (encryptFileToStagingParallel prims fileId fileKey workerCount).step state event =
            some next →
          ¬ WriterFailsLate state event →
            ∃ final, (encryptFileToStagingParallel prims fileId fileKey workerCount).Reaches next
                final ∧ final.Stuck prims fileId fileKey) := by
  constructor
  · intro events state run obeys
    have holds : state.Consistent ∧ state.Fits :=
      @Machine.invariant_of_obeys _ _ _ WriterFailsLate
        (fun reached => reached.Consistent ∧ reached.Fits)
        (fun before event after holds late step =>
          ⟨seedConsistent_of_step before event after holds.1 step,
            seedFits_of_step staffed holds.1 holds.2 late step⟩)
        _ state events
        ⟨seedConsistent_initial script, by simp [SeedPipeline.Fits, SeedPipeline.initial,
          SeedWriter.alive]⟩
        obeys run
    exact seed_not_stuck_of_fits holds.2
  · intro state event next reach step early
    have consistent : state.Consistent :=
      Machine.invariant_of_reaches seedConsistent_of_step (seedConsistent_initial script) reach
    have next_consistent := seedConsistent_of_step state event next consistent step
    cases event with
    | read | sendPlain | lock | receive | disconnected | send | finishWriter | join =>
        exact absurd trivial early
    | write failure =>
        simp only [WriterFailsLate, not_forall, Nat.not_le] at early
        obtain ⟨result, rest, arrived, ends, overfull⟩ := early
        cases seedMove_of_step step with
        | write receiving first =>
            obtain ⟨rfl, -⟩ := List.cons.inj (arrived.symm.trans first)
            exact absurd rfl ends
        | writeFails => exact seed_reaches_stuck_of_overfull next_consistent rfl overfull

/-! ## A full staging disk -/

/-- Six one-byte reads. -/
def sixReads : InputScript := { reads := [[0], [1], [2], [3], [4], [5]], failure := none }

/-- A key for the seed pipeline. -/
def seedSampleKey : SymmetricKey := ⟨Vector.replicate 32 7⟩

/-- A file identifier for the seed pipeline. -/
def seedSampleFileId : FileId := hashFileId transparentPrimitives [0, 1, 2, 3, 4, 5]

/-- The nonce of every chunk below. -/
def seedSampleNonce : Nonce := ⟨Vector.replicate 24 0⟩

/-- Six chunks, one worker, and a staging write that fails for the first chunk: the worker stops at
its second chunk and the reader fills the channel of two plain chunks, with one more in its hand. -/
theorem seedPipeline_blocks_on_full_staging_disk :
    ∃ state,
      (encryptFileToStagingParallel transparentPrimitives seedSampleFileId seedSampleKey 1).run
        (.initial sixReads 1)
        [.read, .sendPlain, .lock 0, .receive 0, .send 0 seedSampleNonce, .write (some .other),
          .read, .sendPlain, .lock 0, .receive 0, .send 0 seedSampleNonce,
          .read, .sendPlain, .read, .sendPlain, .read] = some state ∧
      state.Stuck transparentPrimitives seedSampleFileId seedSampleKey := by
  refine ⟨_, rfl, ?_, ?_⟩
  · intro event
    match event with
    | .read | .sendPlain | .lock 0 | .receive 0 | .disconnected 0 | .send 0 _ => rfl
    | .write _ | .finishWriter | .join => rfl
  · rintro ⟨outcome, returned⟩
    cases returned

/-- One worker that has just taken the first of six chunks. -/
theorem seedPipeline_not_stuck_at_first_chunk :
    1 ≤ 1 ∧ ∃ state,
      (encryptFileToStagingParallel transparentPrimitives seedSampleFileId seedSampleKey 1).run
        (.initial sixReads 1) [.read, .sendPlain, .lock 0, .receive 0] = some state ∧
      ¬ state.Stuck transparentPrimitives seedSampleFileId seedSampleKey := by
  refine ⟨le_rfl, _, rfl, ?_⟩
  apply (seedPipeline_stuck_only_after_early_failure transparentPrimitives seedSampleFileId
    seedSampleKey sixReads 1 le_rfl).1 [.read, .sendPlain, .lock 0, .receive 0] _ rfl
  simp [Machine.Obeys, WriterFailsLate]

end

end Etle
