import Etle.Transfer.SeedProgress
import Mathlib.Data.Multiset.Basic

/-!
# The order of the seeded chunks

The reader numbers the chunks one after another, and each chunk is at one place of the pipeline at a
time.  So no index is collected twice, and the sorted metadata that the pipeline returns have
strictly increasing indices.
-/

namespace Etle

section

variable {prims : Primitives} {fileId : FileId} {fileKey : SymmetricKey} {workerCount : Nat}

/-- The index of the chunk the reader is about to send. -/
def SeedReader.indices : SeedReader → Multiset UInt32
  | .sending chunk _ => {chunk.index}
  | .reading _ _ | .joining | .failed _ | .returned _ => 0

/-- The index of the chunk a worker encrypts. -/
def SeedWorker.indices : SeedWorker → Multiset UInt32
  | .encrypting chunk => {chunk.index}
  | .idle | .receiving | .finished => 0

@[simp]
theorem SeedWorker.indices_encrypting (chunk : SeedPlainChunk) :
    (SeedWorker.encrypting chunk).indices = {chunk.index} := rfl

@[simp]
theorem SeedWorker.indices_idle : SeedWorker.idle.indices = 0 := rfl

@[simp]
theorem SeedWorker.indices_receiving : SeedWorker.receiving.indices = 0 := rfl

@[simp]
theorem SeedWorker.indices_finished : SeedWorker.finished.indices = 0 := rfl

/-- The index of a chunk on its way to the writer, unless its encryption has failed. -/
def resultIndices : SeedResult → Multiset UInt32
  | .ok chunk => {chunk.entry.index}
  | .error _ => 0

/-- The indices the writer has collected. -/
def SeedWriter.indices : SeedWriter → Multiset UInt32
  | .receiving metas | .ended (.ok metas) => metas.map ChunkMeta.index
  | .ended (.error _) => 0

/-- The indices of all chunks of the pipeline. -/
def SeedPipeline.indices (state : SeedPipeline workerCount) : Multiset UInt32 :=
  state.reader.indices + (state.plain.map SeedPlainChunk.index : List UInt32) +
    (∑ worker, (state.workers worker).indices) + (state.encrypted.map resultIndices).sum +
    state.writer.indices

/-- No index is twice in the pipeline, the reader is past all of them, and what the pipeline returns
is what the writer has sorted. -/
structure SeedPipeline.Numbered (state : SeedPipeline workerCount) : Prop where
  nodup : state.indices.Nodup
  reading : ∀ next script, state.reader = .reading next script →
    ∀ index ∈ state.indices, index.toNat < next.toNat
  sending : ∀ chunk script, state.reader = .sending chunk script →
    ∀ index ∈ state.indices, index.toNat ≤ chunk.index.toNat
  sorted : ∀ metas, state.writer = .ended (.ok metas) →
    metas.Pairwise fun left right => left.index ≤ right.index
  returned : ∀ metas, state.reader = .returned (.ok metas) → state.writer = .ended (.ok metas)

theorem index_of_encryptSeedChunk {nonce : Nonce} {chunk : SeedPlainChunk}
    {result : SeedEncryptedChunk}
    (sealed : encryptSeedChunk prims fileId fileKey nonce chunk = .ok result) :
    result.entry.index = chunk.index := by
  simp only [encryptSeedChunk] at sealed
  split at sealed
  · cases sealed
  · obtain rfl := Except.ok.inj sealed
    rfl

theorem numbered_initial (script : InputScript) :
    (SeedPipeline.initial script workerCount).Numbered := by
  have empty : (SeedPipeline.initial script workerCount).indices = 0 := by
    simp [SeedPipeline.initial, SeedPipeline.indices, SeedReader.indices, SeedWorker.indices,
      SeedWriter.indices]
  refine ⟨by simp [empty], by simp [empty], by simp [empty], ?_, ?_⟩ <;>
    simp [SeedPipeline.initial]

/-- A worker's new position changes the indices by that worker's index. -/
theorem workerIndices_update {state : SeedPipeline workerCount} {worker : Fin workerCount}
    {before : SeedWorker} (after : SeedWorker) (position : state.workers worker = before) :
    (∑ other, (Function.update state.workers worker after other).indices) + before.indices =
      (∑ other, (state.workers other).indices) + after.indices := by
  rw [← position]
  exact sum_update_add state.workers worker after SeedWorker.indices

/-- A worker that held no chunk brings in the index of its new position. -/
theorem workerIndices_gain {state : SeedPipeline workerCount} {worker : Fin workerCount}
    {before : SeedWorker} (after : SeedWorker) (position : state.workers worker = before)
    (free : before.indices = 0) :
    (∑ other, (Function.update state.workers worker after other).indices) =
      (∑ other, (state.workers other).indices) + after.indices := by
  rw [← workerIndices_update after position, free, add_zero]

/-- A worker that holds no chunk any more takes out the index of its old position. -/
theorem workerIndices_lose {state : SeedPipeline workerCount} {worker : Fin workerCount}
    {before : SeedWorker} (after : SeedWorker) (position : state.workers worker = before)
    (free : after.indices = 0) :
    (∑ other, (state.workers other).indices) =
      (∑ other, (Function.update state.workers worker after other).indices) + before.indices := by
  rw [workerIndices_update after position, free, add_zero]

/-- An error has ended the writer or waits for it. -/
def SeedPipeline.Breaks (state : SeedPipeline workerCount) : Prop :=
  (∃ error, state.writer = .ended (.error error)) ∨ ∃ error, .error error ∈ state.encrypted

/-- Only reading adds an index to the pipeline, and it adds the next one; an index goes only with an
error, or with a worker that finds the writer gone. -/
theorem indices_of_move {state next : SeedPipeline workerCount} {event : SeedEvent workerCount}
    (move : SeedMove prims fileId fileKey state event next) :
    (next.indices = state.indices ∧
      ∀ chunk rest, next.reader = .sending chunk rest → state.reader = .sending chunk rest) ∨
    (∃ index data script rest, state.reader = .reading index script ∧
      next.reader = .sending { index, data } rest ∧ next.writer = state.writer ∧
      next.indices = index ::ₘ state.indices) ∨
    (next.indices ≤ state.indices ∧ (next.Breaks ∨ state.writer.alive = false ∧
      ∃ worker chunk, state.workers worker = .encrypting chunk)) := by
  cases move with
  | @read index data rest failure reading =>
      refine .inr (.inl ⟨index, data, _, _, reading, rfl, rfl, ?_⟩)
      simp only [SeedPipeline.indices, reading, SeedReader.indices, ← Multiset.singleton_add]
      abel
  | endOfFile reading | readFails reading =>
      refine .inl ⟨?_, by simp⟩
      simp [SeedPipeline.indices, reading, SeedReader.indices]
  | sendPlain sending room increment | sendLast sending room overflow =>
      refine .inl ⟨?_, by simp⟩
      simp only [SeedPipeline.indices, sending, SeedReader.indices, List.map_append, List.map_cons,
        List.map_nil, ← Multiset.coe_add, Multiset.coe_singleton]
      abel
  | @lock worker idle free =>
      refine .inl ⟨?_, fun _ _ sending => sending⟩
      simp only [SeedPipeline.indices, workerIndices_gain .receiving idle rfl,
        SeedWorker.indices_receiving, add_zero]
  | @receive worker chunk rest receiving arrived =>
      refine .inl ⟨?_, fun _ _ sending => sending⟩
      simp only [SeedPipeline.indices, workerIndices_gain (.encrypting chunk) receiving rfl,
        SeedWorker.indices_encrypting, arrived, List.map_cons, ← Multiset.cons_coe,
        ← Multiset.singleton_add]
      abel
  | @disconnected worker receiving empty dropped =>
      refine .inl ⟨?_, fun _ _ sending => sending⟩
      simp only [SeedPipeline.indices, workerIndices_gain .finished receiving rfl,
        SeedWorker.indices_finished, add_zero]
  | @send worker nonce chunk holding alive room =>
      have held := workerIndices_lose .idle holding rfl
      cases sealed : encryptSeedChunk prims fileId fileKey nonce chunk with
      | ok result =>
          refine .inl ⟨?_, fun _ _ sending => sending⟩
          have same : resultIndices (.ok result) = {chunk.index} := by
            rw [resultIndices, index_of_encryptSeedChunk sealed]
          simp only [SeedPipeline.indices, held, SeedWorker.indices_encrypting, List.map_append,
            List.map_cons, List.map_nil, List.sum_append, List.sum_singleton, same]
          abel
      | error failure =>
          refine .inr (.inr ⟨?_, .inl (.inr ⟨failure, by simp⟩)⟩)
          simp only [SeedPipeline.indices, held, SeedWorker.indices_encrypting, List.map_append,
            List.map_cons, List.map_nil, List.sum_append, List.sum_singleton, resultIndices,
            add_zero]
          gcongr
          exact Multiset.le_add_right _ _
  | @giveUp worker nonce chunk holding dead =>
      refine .inr (.inr ⟨?_, .inr ⟨dead, worker, chunk, holding⟩⟩)
      have held := workerIndices_lose .finished holding rfl
      simp only [SeedPipeline.indices, held, SeedWorker.indices_encrypting]
      gcongr
      exact Multiset.le_add_right _ _
  | @write collected chunk rest receiving arrived =>
      refine .inl ⟨?_, fun _ _ sending => sending⟩
      simp only [SeedPipeline.indices, receiving, arrived, SeedWriter.indices, List.map_cons,
        List.sum_cons, resultIndices, List.map_append, List.map_nil, ← Multiset.coe_add,
        Multiset.coe_singleton]
      abel
  | @writeFails failure collected result rest error receiving arrived ends =>
      refine .inr (.inr ⟨?_, .inl (.inl ⟨error, rfl⟩)⟩)
      simp only [SeedPipeline.indices, SeedWriter.indices, List.map_nil, List.sum_nil, add_zero,
        add_assoc]
      gcongr
      exact Multiset.le_add_right _ _
  | @finishWriter collected receiving empty finished =>
      refine .inl ⟨?_, fun _ _ sending => sending⟩
      have same : ((sortByIndex collected).map ChunkMeta.index : Multiset UInt32) =
          (collected.map ChunkMeta.index : List UInt32) :=
        Multiset.coe_eq_coe.mpr ((List.perm_insertionSort _ collected).map ChunkMeta.index)
      simp only [SeedPipeline.indices, receiving, SeedWriter.indices, same]
  | @join outcome joining ended finished =>
      refine .inl ⟨?_, by simp⟩
      simp only [SeedPipeline.indices, joining, SeedReader.indices]
  | @leaveScope error outcome failed ended finished =>
      refine .inl ⟨?_, by simp⟩
      simp only [SeedPipeline.indices, failed, SeedReader.indices]

/-- A step keeps the indices within those that were there, or reads the next one. -/
theorem indices_le_or_read_of_move {state next : SeedPipeline workerCount}
    {event : SeedEvent workerCount} (move : SeedMove prims fileId fileKey state event next) :
    next.indices ≤ state.indices ∨
      ∃ index data script rest, state.reader = .reading index script ∧
        next.reader = .sending { index, data } rest ∧ next.writer = state.writer ∧
        next.indices = index ::ₘ state.indices := by
  obtain ⟨same, -⟩ | ⟨index, data, script, rest, reading, sending, writer, more⟩ | ⟨fewer, -⟩ :=
    indices_of_move move
  · exact .inl (le_of_eq same)
  · exact .inr ⟨index, data, script, rest, reading, sending, writer, more⟩
  · exact .inl fewer

/-- Every step keeps the numbering. -/
theorem numbered_of_step (state : SeedPipeline workerCount) (event : SeedEvent workerCount)
    (next : SeedPipeline workerCount) (numbered : state.Numbered)
    (step : (encryptFileToStagingParallel prims fileId fileKey workerCount).step state event =
      some next) : next.Numbered := by
  have move := seedMove_of_step step
  obtain fewer | ⟨index, data, script, rest, reading, sending, writer, more⟩ :=
    indices_le_or_read_of_move move
  · have nodup := Multiset.nodup_of_le fewer numbered.nodup
    have keep {bound : UInt32 → Prop} (holds : ∀ index ∈ state.indices, bound index) :
        ∀ index ∈ next.indices, bound index :=
      fun index member => holds index (Multiset.mem_of_le fewer member)
    have unreturned {collected : List ChunkMeta} (writing : state.writer = .receiving collected)
        {metas : List ChunkMeta} : state.reader ≠ .returned (.ok metas) := by
      intro returned
      simpa [writing] using numbered.returned metas returned
    cases move with
    | @read index data rest failure reading =>
        refine ⟨nodup, by simp, ?_, numbered.sorted, by simp⟩
        rintro chunk script same
        obtain ⟨rfl, -⟩ : ({ index, data } : SeedPlainChunk) = chunk ∧ _ = script := by
          simpa using same
        exact keep fun other member => le_of_lt (numbered.reading _ _ reading other member)
    | endOfFile reading | readFails reading | sendLast sending room overflow =>
        exact ⟨nodup, by simp, by simp, numbered.sorted, by simp⟩
    | @sendPlain chunk script sending room increment =>
        refine ⟨nodup, ?_, by simp, numbered.sorted, by simp⟩
        rintro following later same
        obtain ⟨rfl, -⟩ : chunk.index + 1 = following ∧ script = later := by simpa using same
        refine keep fun other member => ?_
        have earlier := numbered.sending chunk script sending other member
        rw [UInt32.toNat_add, UInt32.toNat_one, Nat.mod_eq_of_lt increment]
        omega
    | lock | receive | disconnected | send | giveUp =>
        exact ⟨nodup, fun next script reading => keep (numbered.reading next script reading),
          fun chunk script sending => keep (numbered.sending chunk script sending),
          numbered.sorted, numbered.returned⟩
    | write writing arrived | writeFails writing arrived ends =>
        exact ⟨nodup, fun next script reading => keep (numbered.reading next script reading),
          fun chunk script sending => keep (numbered.sending chunk script sending), by simp,
          fun metas returned => absurd returned (unreturned writing)⟩
    | @finishWriter collected writing empty finished =>
        refine ⟨nodup, fun next script reading => keep (numbered.reading next script reading),
          fun chunk script sending => keep (numbered.sending chunk script sending), ?_,
          fun metas returned => absurd returned (unreturned writing)⟩
        rintro metas same
        obtain rfl : sortByIndex collected = metas := by simpa using same
        exact List.pairwise_insertionSort _ collected
    | @join outcome joining ended finished =>
        refine ⟨nodup, by simp, by simp, numbered.sorted, ?_⟩
        rintro metas same
        obtain rfl : outcome = .ok metas := by simpa using same
        exact ended
    | leaveScope failed ended finished =>
        exact ⟨nodup, by simp, by simp, numbered.sorted, by simp⟩
  · have fresh : index ∉ state.indices := fun member =>
      absurd (numbered.reading index script reading index member) (lt_irrefl _)
    refine ⟨by rw [more]; exact Multiset.nodup_cons.mpr ⟨fresh, numbered.nodup⟩, ?_, ?_, ?_, ?_⟩
    · simp [sending]
    · rintro chunk later same
      obtain ⟨rfl, -⟩ : ({ index, data } : SeedPlainChunk) = chunk ∧ rest = later := by
        simpa [sending] using same
      intro other member
      rw [more, Multiset.mem_cons] at member
      obtain rfl | member := member
      · exact le_rfl
      · exact le_of_lt (numbered.reading index script reading other member)
    · rw [writer]
      exact numbered.sorted
    · simp [sending]

/-- The metadata that the pipeline returns have strictly increasing indices. -/
theorem indices_increasing_of_returned {script : InputScript} {state : SeedPipeline workerCount}
    {metas : List ChunkMeta}
    (reach : (encryptFileToStagingParallel prims fileId fileKey workerCount).Reaches
      (.initial script workerCount) state)
    (returned : state.reader = .returned (.ok metas)) :
    (metas.map ChunkMeta.index).Pairwise (· < ·) := by
  have numbered := Machine.invariant_of_reaches numbered_of_step (numbered_initial script) reach
  have writer := numbered.returned metas returned
  have nodup : (metas.map ChunkMeta.index).Nodup := by
    have within : ((metas.map ChunkMeta.index : List UInt32) : Multiset UInt32) ≤
        state.indices := by
      simp only [SeedPipeline.indices, writer, SeedWriter.indices]
      exact Multiset.le_add_left _ _
    exact Multiset.nodup_of_le within numbered.nodup
  have sorted : (metas.map ChunkMeta.index).Pairwise (· ≤ ·) :=
    List.pairwise_map.mpr (numbered.sorted metas writer)
  exact (sorted.and nodup).imp fun pair => UInt32.lt_of_le_of_ne pair.1 pair.2

end

end Etle
