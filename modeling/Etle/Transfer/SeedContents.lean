import Etle.Transfer.SeedOrder

/-!
# What the seed pipeline returns

Every chunk in the pipeline is one of the reads of the input under its own number, and as long as no
encryption and no write fails none of them is lost.  So the metadata that the pipeline returns
describe the reads one by one, and the staging directory holds their ciphertexts.
-/

namespace Etle

/-- A chunk is the read of the input with its number. -/
def SeedPlainChunk.From (script : InputScript) (chunk : SeedPlainChunk) : Prop :=
  script.reads[chunk.index.toNat]? = some chunk.data

/-- The reader has taken its reads from the front of the input. -/
def SeedReader.Follows (script : InputScript) : SeedReader → Prop
  | .reading next rest =>
      next.toNat ≤ script.reads.length ∧ script.reads.drop next.toNat = rest.reads
  | .sending chunk rest => script.reads.drop chunk.index.toNat = chunk.data :: rest.reads
  | .joining | .failed _ | .returned _ => True

/-- How many reads the reader has taken, when it has not failed. -/
def SeedReader.readCount (total : Nat) : SeedReader → Nat
  | .reading next _ => next.toNat
  | .sending chunk _ => chunk.index.toNat + 1
  | .joining | .failed _ | .returned _ => total

/-- The metadata the writer holds. -/
def SeedWriter.metas : SeedWriter → List ChunkMeta
  | .receiving collected => collected
  | .ended (.ok metas) => metas
  | .ended (.error _) => []

section

variable (prims : Primitives) (fileId : FileId) (fileKey : SymmetricKey) {workerCount : Nat}

/-- An encrypted chunk is the encryption of a read of the input. -/
def SeedEncryptedChunk.From (script : InputScript) (result : SeedEncryptedChunk) : Prop :=
  ∃ nonce chunk, chunk.From script ∧
    encryptSeedChunk prims fileId fileKey nonce chunk = .ok result

/-- Every chunk of the pipeline stems from the input, and what is collected is staged. -/
structure SeedPipeline.Traces (script : InputScript) (state : SeedPipeline workerCount) :
    Prop where
  reader : state.reader.Follows script
  plain : ∀ chunk ∈ state.plain, chunk.From script
  workers : ∀ worker chunk, state.workers worker = .encrypting chunk → chunk.From script
  encrypted : ∀ result, .ok result ∈ state.encrypted → result.From prims fileId fileKey script
  collected : ∀ entry ∈ state.writer.metas, ∃ ciphertext,
    SeedEncryptedChunk.From prims fileId fileKey script { entry, ciphertext } ∧
      state.staged entry.index = some ciphertext

/-- The pipeline has failed or is bound to fail. -/
def SeedPipeline.Failing (state : SeedPipeline workerCount) : Prop :=
  state.Breaks ∨ (∃ error, state.reader = .failed error) ∨
    ∃ error, state.reader = .returned (.error error)

/-- Nothing is left behind a writer that has ended well, and nothing is lost unless the pipeline is
failing. -/
structure SeedPipeline.Lossless (script : InputScript) (state : SeedPipeline workerCount) :
    Prop where
  settled : ∀ metas, state.writer = .ended (.ok metas) →
    state.encrypted = [] ∧ state.untaken = 0 ∧ state.AllFinished
  counted : state.Failing ∨ state.indices.card = state.reader.readCount script.reads.length

end

section

variable {prims : Primitives} {fileId : FileId} {fileKey : SymmetricKey} {workerCount : Nat}
  {script : InputScript}

theorem from_of_follows {chunk : SeedPlainChunk} {rest : InputScript}
    (follows : (SeedReader.sending chunk rest).Follows script) : chunk.From script := by
  have head : (script.reads.drop chunk.index.toNat)[0]? = some chunk.data := by
    rw [show script.reads.drop chunk.index.toNat = chunk.data :: rest.reads from follows]
    rfl
  simpa [SeedPlainChunk.From] using head

theorem traces_initial : (SeedPipeline.initial script workerCount).Traces prims fileId fileKey
    script := by
  refine ⟨⟨by simp, rfl⟩, ?_, ?_, ?_, ?_⟩ <;> simp [SeedPipeline.initial, SeedWriter.metas]

/-- The chunk the writer takes next has an index it has not collected. -/
theorem notMem_collected_of_arrived {state : SeedPipeline workerCount}
    {metas : List ChunkMeta} {chunk : SeedEncryptedChunk} {rest : List SeedResult}
    (numbered : state.Numbered) (receiving : state.writer = .receiving metas)
    (arrived : state.encrypted = .ok chunk :: rest) :
    chunk.entry.index ∉ metas.map ChunkMeta.index := by
  have within : chunk.entry.index ::ₘ
      ((metas.map ChunkMeta.index : List UInt32) : Multiset UInt32) ≤ state.indices := by
    simp only [SeedPipeline.indices, receiving, arrived, SeedWriter.indices, List.map_cons,
      List.sum_cons, resultIndices, ← Multiset.singleton_add]
    gcongr
    exact le_trans (Multiset.le_add_right _ _) (Multiset.le_add_left _ _)
  have nodup := Multiset.nodup_of_le within numbered.nodup
  simpa using (Multiset.nodup_cons.mp nodup).1

/-- Every step keeps the chunks of the pipeline tied to the input. -/
theorem traces_of_step (state : SeedPipeline workerCount) (event : SeedEvent workerCount)
    (next : SeedPipeline workerCount) (numbered : state.Numbered)
    (traces : state.Traces prims fileId fileKey script)
    (step : (encryptFileToStagingParallel prims fileId fileKey workerCount).step state event =
      some next) : next.Traces prims fileId fileKey script := by
  obtain ⟨reader, plain, workers, encrypted, collected⟩ := traces
  have elsewhere {worker : Fin workerCount} {position : SeedWorker}
      (held : ∀ chunk, position = .encrypting chunk → chunk.From script) :
      ∀ other chunk, Function.update state.workers worker position other = .encrypting chunk →
        chunk.From script := by
    intro other chunk holding
    by_cases same : other = worker
    · subst same
      exact held chunk (by simpa using holding)
    · exact workers other chunk (by simpa [same] using holding)
  cases seedMove_of_step step with
  | @read index data rest failure reading =>
      rw [reading] at reader
      exact ⟨reader.2, plain, workers, encrypted, collected⟩
  | endOfFile reading | readFails reading => exact ⟨trivial, plain, workers, encrypted, collected⟩
  | @sendPlain chunk rest sending room increment =>
      rw [sending] at reader
      have follows : script.reads.drop chunk.index.toNat = chunk.data :: rest.reads := reader
      have index_eq : (chunk.index + 1).toNat = chunk.index.toNat + 1 := by
        rw [UInt32.toNat_add, UInt32.toNat_one, Nat.mod_eq_of_lt increment]
      have longer : chunk.index.toNat < script.reads.length := by
        have nonempty : 0 < (script.reads.drop chunk.index.toNat).length := by simp [follows]
        rw [List.length_drop] at nonempty
        omega
      refine ⟨⟨by rw [index_eq]; exact longer, ?_⟩, ?_, workers, encrypted, collected⟩
      · rw [index_eq, ← List.drop_drop, follows]
        rfl
      · simp only [List.mem_append, List.mem_singleton]
        rintro other (member | rfl)
        · exact plain other member
        · exact from_of_follows reader
  | @sendLast chunk rest sending room overflow =>
      rw [sending] at reader
      refine ⟨trivial, ?_, workers, encrypted, collected⟩
      simp only [List.mem_append, List.mem_singleton]
      rintro other (member | rfl)
      · exact plain other member
      · exact from_of_follows reader
  | lock idle free => exact ⟨reader, plain, elsewhere (by simp), encrypted, collected⟩
  | @receive worker chunk rest receiving arrived =>
      rw [arrived] at plain
      refine ⟨reader, fun other member => plain other (List.mem_cons_of_mem _ member),
        elsewhere ?_, encrypted, collected⟩
      rintro other same
      obtain rfl : chunk = other := by simpa using same
      exact plain chunk List.mem_cons_self
  | disconnected receiving empty dropped =>
      exact ⟨reader, plain, elsewhere (by simp), encrypted, collected⟩
  | @send worker nonce chunk holding alive room =>
      refine ⟨reader, plain, elsewhere (by simp), ?_, collected⟩
      simp only [List.mem_append, List.mem_singleton]
      rintro result (member | sealed)
      · exact encrypted result member
      · exact ⟨nonce, chunk, workers worker chunk holding, sealed.symm⟩
  | giveUp holding dead => exact ⟨reader, plain, elsewhere (by simp), encrypted, collected⟩
  | @write metas chunk rest receiving arrived =>
      have fresh := notMem_collected_of_arrived numbered receiving arrived
      rw [receiving] at collected
      refine ⟨reader, plain, workers, ?_, ?_⟩
      · exact fun result member => encrypted result (arrived ▸ List.mem_cons_of_mem _ member)
      · simp only [SeedWriter.metas, List.mem_append, List.mem_singleton]
        rintro entry (member | rfl)
        · obtain ⟨ciphertext, stems, staged⟩ := collected entry member
          have other : entry.index ≠ chunk.entry.index := by
            intro same
            exact fresh (same ▸ List.mem_map_of_mem member)
          exact ⟨ciphertext, stems, by rw [Function.update_of_ne other, staged]⟩
        · exact ⟨chunk.ciphertext, encrypted chunk (arrived ▸ List.mem_cons_self), by simp⟩
  | writeFails receiving arrived ends =>
      exact ⟨reader, plain, workers, by simp, by simp [SeedWriter.metas]⟩
  | @finishWriter metas receiving empty finished =>
      refine ⟨reader, plain, workers, encrypted, ?_⟩
      intro entry member
      rw [receiving] at collected
      exact collected entry ((List.perm_insertionSort _ metas).mem_iff.mp member)
  | join joining ended finished => exact ⟨trivial, plain, workers, encrypted, collected⟩
  | leaveScope failed ended finished => exact ⟨trivial, plain, workers, encrypted, collected⟩

theorem lossless_initial : (SeedPipeline.initial script workerCount).Lossless script := by
  refine ⟨by simp [SeedPipeline.initial], .inr ?_⟩
  simp [SeedPipeline.initial, SeedPipeline.indices, SeedReader.indices, SeedWorker.indices,
    SeedWriter.indices, SeedReader.readCount]

/-- An error that has ended the writer, or waits for it, stays. -/
theorem breaks_of_move {state next : SeedPipeline workerCount} {event : SeedEvent workerCount}
    (breaks : state.Breaks) (move : SeedMove prims fileId fileKey state event next) :
    next.Breaks := by
  obtain ⟨error, ended⟩ | ⟨error, waiting⟩ := breaks
  · left
    cases move with
    | write receiving _ | writeFails receiving _ _ | finishWriter receiving _ _ =>
        simp [ended] at receiving
    | _ => exact ⟨error, ended⟩
  · cases move with
    | send => exact .inr ⟨error, by simp [waiting]⟩
    | write receiving arrived => exact .inr ⟨error, by simpa [arrived] using waiting⟩
    | writeFails => exact .inl ⟨_, rfl⟩
    | finishWriter receiving empty finished => simp [empty] at waiting
    | _ => exact .inr ⟨error, waiting⟩

/-- A pipeline that is failing keeps failing. -/
theorem failing_of_move {state next : SeedPipeline workerCount} {event : SeedEvent workerCount}
    (failing : state.Failing) (move : SeedMove prims fileId fileKey state event next) :
    next.Failing := by
  obtain breaks | ⟨error, failed⟩ | ⟨error, returned⟩ := failing
  · exact .inl (breaks_of_move breaks move)
  · cases move with
    | read reading | endOfFile reading | readFails reading => simp [failed] at reading
    | sendPlain sending _ _ | sendLast sending _ _ => simp [failed] at sending
    | join joining _ _ => simp [failed] at joining
    | leaveScope => exact .inr (.inr ⟨_, rfl⟩)
    | _ => exact .inr (.inl ⟨error, failed⟩)
  · cases move with
    | read reading | endOfFile reading | readFails reading => simp [returned] at reading
    | sendPlain sending _ _ | sendLast sending _ _ => simp [returned] at sending
    | join joining _ _ => simp [returned] at joining
    | leaveScope failed _ _ => simp [returned] at failed
    | _ => exact .inr (.inr ⟨error, returned⟩)

/-- A step that reads nothing leaves the number of reads taken, unless it fails. -/
theorem readCount_of_move {state next : SeedPipeline workerCount} {event : SeedEvent workerCount}
    (reader : state.reader.Follows script)
    (unread : ∀ chunk rest, next.reader = .sending chunk rest → state.reader = .sending chunk rest)
    (move : SeedMove prims fileId fileKey state event next) :
    next.Failing ∨
      next.reader.readCount script.reads.length = state.reader.readCount script.reads.length := by
  cases move with
  | read reading => simpa [reading] using unread _ _ rfl
  | endOfFile reading =>
      rw [reading] at reader
      have all_read := List.drop_eq_nil_iff.mp reader.2
      refine .inr ?_
      simp only [reading, SeedReader.readCount]
      exact le_antisymm all_read reader.1
  | readFails => exact .inl (.inr (.inl ⟨_, rfl⟩))
  | sendPlain sending room increment =>
      refine .inr ?_
      simp only [sending, SeedReader.readCount]
      rw [UInt32.toNat_add, UInt32.toNat_one, Nat.mod_eq_of_lt increment]
  | sendLast => exact .inl (.inr (.inl ⟨_, rfl⟩))
  | @join outcome joining ended finished =>
      cases outcome with
      | error failure => exact .inl (.inr (.inr ⟨failure, rfl⟩))
      | ok metas => exact .inr (by rw [joining]; rfl)
  | leaveScope => exact .inl (.inr (.inr ⟨_, rfl⟩))
  | _ => exact .inr rfl

/-- A writer that has ended well leaves nothing behind. -/
theorem settled_of_move (staffed : 0 < workerCount) {state next : SeedPipeline workerCount}
    {event : SeedEvent workerCount} (consistent : state.Consistent)
    (settled : ∀ metas, state.writer = .ended (.ok metas) →
      state.encrypted = [] ∧ state.untaken = 0 ∧ state.AllFinished)
    (move : SeedMove prims fileId fileKey state event next) (metas : List ChunkMeta)
    (ended : next.writer = .ended (.ok metas)) :
    next.encrypted = [] ∧ next.untaken = 0 ∧ next.AllFinished := by
  cases move with
  | read reading =>
      obtain ⟨empty, taken, finished⟩ := settled metas ended
      refine ⟨empty, ?_, finished⟩
      rw [← taken, SeedPipeline.untaken, SeedPipeline.untaken, reading, unsent_read]
  | endOfFile reading | readFails reading =>
      obtain ⟨empty, taken, finished⟩ := settled metas ended
      refine ⟨empty, ?_, finished⟩
      simp_all [SeedPipeline.untaken, SeedReader.unsent]
  | sendPlain sending _ _ | sendLast sending _ _ =>
      obtain ⟨-, taken, -⟩ := settled metas ended
      simp [SeedPipeline.untaken, sending, SeedReader.unsent] at taken
  | @lock worker idle free =>
      simpa [idle] using (settled metas ended).2.2 worker
  | @receive worker chunk rest receiving arrived =>
      simpa [receiving] using (settled metas ended).2.2 worker
  | @disconnected worker receiving empty dropped =>
      simpa [receiving] using (settled metas ended).2.2 worker
  | @send worker nonce chunk holding alive room =>
      simpa [holding] using (settled metas ended).2.2 worker
  | @giveUp worker nonce chunk holding dead =>
      simpa [holding] using (settled metas ended).2.2 worker
  | write => simp at ended
  | writeFails => simp at ended
  | finishWriter receiving empty finished =>
      refine ⟨empty, ?_, finished⟩
      obtain dead | taken := consistent.ended ⟨0, staffed⟩ (finished _)
      · simp [receiving, SeedWriter.alive] at dead
      · exact taken
  | join joining _ _ =>
      obtain ⟨empty, taken, finished⟩ := settled metas ended
      refine ⟨empty, ?_, finished⟩
      simpa [SeedPipeline.untaken, SeedReader.unsent, joining] using taken
  | leaveScope failed _ _ =>
      obtain ⟨empty, taken, finished⟩ := settled metas ended
      refine ⟨empty, ?_, finished⟩
      simpa [SeedPipeline.untaken, SeedReader.unsent, failed] using taken

/-- Every step keeps count of the chunks. -/
theorem lossless_of_step (staffed : 0 < workerCount) (state : SeedPipeline workerCount)
    (event : SeedEvent workerCount) (next : SeedPipeline workerCount)
    (consistent : state.Consistent) (reader : state.reader.Follows script)
    (lossless : state.Lossless script)
    (step : (encryptFileToStagingParallel prims fileId fileKey workerCount).step state event =
      some next) : next.Lossless script := by
  have move := seedMove_of_step step
  refine ⟨settled_of_move staffed consistent lossless.settled move, ?_⟩
  obtain failing | counted := lossless.counted
  · exact .inl (failing_of_move failing move)
  · obtain ⟨same, unread⟩ | ⟨index, data, rest, later, reading, sending, writer, more⟩ |
      ⟨-, breaks | ⟨dead, worker, chunk, holding⟩⟩ := indices_of_move move
    · obtain failing | count := readCount_of_move reader unread move
      · exact .inl failing
      · exact .inr (by rw [same, counted, count])
    · refine .inr ?_
      rw [more, Multiset.card_cons, counted, reading, sending]
      rfl
    · exact .inl (.inl breaks)
    · refine .inl (failing_of_move ?_ move)
      cases outcome : state.writer with
      | receiving collected => simp [outcome, SeedWriter.alive] at dead
      | ended result =>
          cases result with
          | error failure => exact .inl (.inl ⟨failure, outcome⟩)
          | ok metas =>
              simpa [holding] using (lossless.settled metas outcome).2.2 worker

/-- Increasing numbers below their count are the numbers below this count. -/
theorem eq_range_of_increasing {numbers : List Nat} (increasing : numbers.Pairwise (· < ·))
    (bounded : ∀ number ∈ numbers, number < numbers.length) :
    numbers = List.range numbers.length := by
  have nodup : numbers.Nodup := increasing.imp Nat.ne_of_lt
  have within : numbers ⊆ List.range numbers.length := fun number member =>
    List.mem_range.mpr (bounded number member)
  have perm := (nodup.subperm within).perm_of_length_le (by simp)
  exact perm.eq_of_pairwise' increasing List.pairwise_lt_range

/-- Everything the pipeline keeps along a run. -/
structure SeedPipeline.Sound (prims : Primitives) (fileId : FileId) (fileKey : SymmetricKey)
    (script : InputScript) (state : SeedPipeline workerCount) : Prop where
  consistent : state.Consistent
  numbered : state.Numbered
  traces : state.Traces prims fileId fileKey script
  lossless : state.Lossless script

theorem sound_of_reaches (staffed : 0 < workerCount) {state : SeedPipeline workerCount}
    (reach : (encryptFileToStagingParallel prims fileId fileKey workerCount).Reaches
      (.initial script workerCount) state) : state.Sound prims fileId fileKey script := by
  refine Machine.invariant_of_reaches ?_
    ⟨seedConsistent_initial script, numbered_initial script, traces_initial, lossless_initial⟩ reach
  intro before event after sound step
  exact ⟨seedConsistent_of_step before event after sound.consistent step,
    numbered_of_step before event after sound.numbered step,
    traces_of_step before event after sound.numbered sound.traces step,
    lossless_of_step staffed before event after sound.consistent sound.traces.reader
      sound.lossless step⟩

/-- A pipeline that has returned metadata holds nothing but them. -/
theorem indices_of_returned {state : SeedPipeline workerCount} {metas : List ChunkMeta}
    (sound : state.Sound prims fileId fileKey script)
    (returned : state.reader = .returned (.ok metas)) :
    state.indices = (metas.map ChunkMeta.index : List UInt32) := by
  have ended := sound.numbered.returned metas returned
  obtain ⟨empty, taken, finished⟩ := sound.lossless.settled metas ended
  have plain : state.plain = [] := by
    rw [SeedPipeline.untaken] at taken
    exact List.length_eq_zero_iff.mp (by omega)
  have workers : ∑ worker, (state.workers worker).indices = 0 :=
    Finset.sum_eq_zero fun worker _ => by rw [finished worker]; rfl
  simp [SeedPipeline.indices, returned, SeedReader.indices, plain, workers, empty, ended,
    SeedWriter.indices]

theorem length_of_returned {state : SeedPipeline workerCount} {metas : List ChunkMeta}
    (sound : state.Sound prims fileId fileKey script)
    (returned : state.reader = .returned (.ok metas)) :
    metas.length = script.reads.length := by
  have ended := sound.numbered.returned metas returned
  obtain ((⟨error, failed⟩ | ⟨error, waiting⟩) | ⟨error, failed⟩ | ⟨error, failed⟩) | counted :=
    sound.lossless.counted
  · simp [ended] at failed
  · simp [(sound.lossless.settled metas ended).1] at waiting
  · simp [returned] at failed
  · simp [returned] at failed
  · rw [indices_of_returned sound returned, returned] at counted
    simpa [SeedReader.readCount] using counted

/-- The metadata that the pipeline returns describe the reads of the input one by one, and each
ciphertext is staged. -/
theorem returned_describes_reads (staffed : 0 < workerCount) {state : SeedPipeline workerCount}
    {metas : List ChunkMeta}
    (reach : (encryptFileToStagingParallel prims fileId fileKey workerCount).Reaches
      (.initial script workerCount) state)
    (returned : state.reader = .returned (.ok metas)) :
    metas.length = script.reads.length ∧
      ∀ position entry, metas[position]? = some entry → entry.index.toNat = position ∧
        ∃ data nonce ciphertext, script.reads[position]? = some data ∧
          encryptSeedChunk prims fileId fileKey nonce { index := entry.index, data } =
            .ok { entry, ciphertext } ∧ state.staged entry.index = some ciphertext := by
  have sound := sound_of_reaches staffed reach
  have ended := sound.numbered.returned metas returned
  have length := length_of_returned sound returned
  have stems : ∀ entry ∈ metas, ∃ data nonce ciphertext,
      script.reads[entry.index.toNat]? = some data ∧
        encryptSeedChunk prims fileId fileKey nonce { index := entry.index, data } =
          .ok { entry, ciphertext } ∧ state.staged entry.index = some ciphertext := by
    intro entry member
    obtain ⟨ciphertext, ⟨nonce, chunk, read, sealed⟩, staged⟩ :=
      sound.traces.collected entry (by rw [ended]; exact member)
    have index_eq : entry.index = chunk.index := index_of_encryptSeedChunk sealed
    rw [index_eq] at staged ⊢
    exact ⟨chunk.data, nonce, ciphertext, read, sealed, staged⟩
  have indices : metas.map (fun entry => entry.index.toNat) = List.range metas.length := by
    have increasing : (metas.map fun entry => entry.index.toNat).Pairwise (· < ·) := by
      simpa [List.pairwise_map, UInt32.lt_iff_toNat_lt] using
        indices_increasing_of_returned reach returned
    have bounded : ∀ number ∈ metas.map (fun entry => entry.index.toNat),
        number < (metas.map fun entry => entry.index.toNat).length := by
      simp only [List.mem_map, List.length_map]
      rintro _ ⟨entry, member, rfl⟩
      obtain ⟨data, _, _, read, -⟩ := stems entry member
      obtain ⟨bound, -⟩ := List.getElem?_eq_some_iff.mp read
      omega
    simpa using eq_range_of_increasing increasing bounded
  refine ⟨length, ?_⟩
  intro position entry found
  have index_eq : entry.index.toNat = position := by
    have at_position : (metas.map fun entry => entry.index.toNat)[position]? =
        some entry.index.toNat := by simp [found]
    rw [indices, List.getElem?_range] at at_position
    · simpa using at_position.symm
    · exact (List.getElem?_eq_some_iff.mp found).1
  obtain ⟨data, nonce, ciphertext, read, sealed, staged⟩ :=
    stems entry (List.mem_of_getElem? found)
  exact ⟨index_eq, data, nonce, ciphertext, index_eq ▸ read, sealed, staged⟩

end

end Etle
