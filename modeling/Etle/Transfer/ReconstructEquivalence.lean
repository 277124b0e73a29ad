import Etle.Transfer.ReconstructProgress

/-!
# Parallel and sequential reconstruction agree

The workers' results reach the consumer in any order.  What carries the equality is a relation
between the entries seen so far and the loop variables: the bytes written are those of a prefix of
the manifest, and the pending map holds exactly the other entries seen.
-/

namespace Etle

open Std (TreeMap)

/-- The decrypted bytes of an entry, if it decrypts. -/
def plainOf (decrypt : ChunkMeta → DecryptResult) (entry : ChunkMeta) : Bytes :=
  match decrypt entry with
  | .ok chunk => chunk.data
  | .error _ => []

/-- A decryption that labels its results with the index of the entry. -/
def Labelled (decrypt : ChunkMeta → DecryptResult) : Prop :=
  ∀ entry chunk, decrypt entry = .ok chunk → chunk.index = entry.index

theorem labelled_decryptLibraryChunk (prims : Primitives) (disk : Disk) (paths : LibraryPaths)
    (fileId : FileId) (fileKey : SymmetricKey) :
    Labelled (decryptLibraryChunk prims disk paths fileId fileKey) := by
  intro entry chunk decrypted
  obtain ⟨cipher, -, -, -, -, -, same⟩ := decryptLibraryChunk_eq_ok.mp decrypted
  exact same

/-! ## The sequential writer -/

/-- When every entry decrypts, the sequential writer appends them all. -/
theorem writeDecrypted_of_all_ok {decrypt : ChunkMeta → DecryptResult} {entries : List ChunkMeta}
    (decrypted : ∀ entry ∈ entries, ∃ chunk, decrypt entry = .ok chunk) (written : Bytes) :
    writeDecrypted decrypt written entries =
      (written ++ entries.flatMap (plainOf decrypt), .ok ()) := by
  induction entries generalizing written with
  | nil => simp [writeDecrypted]
  | cons entry rest ih =>
      obtain ⟨chunk, first⟩ := decrypted entry List.mem_cons_self
      have later := ih (fun other member => decrypted other (List.mem_cons_of_mem _ member))
      simp [writeDecrypted, first, later, plainOf]

/-- When some entry does not decrypt, the sequential writer fails. -/
theorem writeDecrypted_of_error {decrypt : ChunkMeta → DecryptResult} {entries : List ChunkMeta}
    {entry : ChunkMeta} {failure : NetworkError} (member : entry ∈ entries)
    (failed : decrypt entry = .error failure) (written : Bytes) :
    ∃ cause, (writeDecrypted decrypt written entries).2 = .error cause := by
  induction entries generalizing written with
  | nil => cases member
  | cons head rest ih =>
      cases first : decrypt head with
      | error cause => exact ⟨cause, by simp [writeDecrypted, first]⟩
      | ok chunk =>
          have later : entry ∈ rest := by
            obtain rfl | later := List.mem_cons.mp member
            · simp [failed] at first
            · exact later
          simpa [writeDecrypted, first] using ih later (written ++ chunk.data)

/-! ## The consumer's loop variables -/

/-- How the loop variables relate to the entries seen so far while no error has been seen. -/
structure CursorTracks (decrypt : ChunkMeta → DecryptResult) (chunks seen : List ChunkMeta)
    (cursor : WriteCursor) : Prop where
  decrypted : ∀ entry ∈ seen, ∃ chunk, decrypt entry = .ok chunk
  prefix_seen : ∀ entry ∈ chunks.take cursor.nextPosition, entry ∈ seen
  written : cursor.written = (chunks.take cursor.nextPosition).flatMap (plainOf decrypt)
  pending : ∀ index data, cursor.pending[index]? = some data ↔
    ∃ entry ∈ seen, entry ∉ chunks.take cursor.nextPosition ∧ entry.index = index ∧
      plainOf decrypt entry = data

/-- The entry the cursor points at has not been seen. -/
def CursorRests (chunks seen : List ChunkMeta) (cursor : WriteCursor) : Prop :=
  ∀ entry, chunks[cursor.nextPosition]? = some entry → entry ∉ seen

section

variable {decrypt : ChunkMeta → DecryptResult} {chunks seen : List ChunkMeta}

theorem eq_of_index_eq (distinct : (chunks.map ChunkMeta.index).Nodup) {first second : ChunkMeta}
    (first_mem : first ∈ chunks) (second_mem : second ∈ chunks)
    (same : first.index = second.index) : first = second :=
  List.inj_on_of_nodup_map distinct first_mem second_mem same

/-- Writing out the entry the cursor points at keeps the relation. -/
theorem CursorTracks.advance (distinct : (chunks.map ChunkMeta.index).Nodup)
    (known : ∀ entry ∈ seen, entry ∈ chunks) {cursor : WriteCursor} {entry : ChunkMeta}
    {data : Bytes} (tracks : CursorTracks decrypt chunks seen cursor)
    (here : chunks[cursor.nextPosition]? = some entry)
    (arrived : cursor.pending[entry.index]? = some data) :
    CursorTracks decrypt chunks seen
      { cursor with
        nextPosition := cursor.nextPosition + 1
        pending := cursor.pending.erase entry.index
        written := cursor.written ++ data } := by
  have entry_mem : entry ∈ chunks := List.mem_of_getElem? here
  have longer : chunks.take (cursor.nextPosition + 1) =
      chunks.take cursor.nextPosition ++ [entry] := by
    rw [List.take_add_one, here, Option.toList_some]
  obtain ⟨found, found_seen, found_later, same, plain⟩ := (tracks.pending _ _).mp arrived
  obtain rfl : found = entry := eq_of_index_eq distinct (known _ found_seen) entry_mem same
  refine ⟨tracks.decrypted, ?_, ?_, ?_⟩
  · intro other member
    simp only [longer, List.mem_append, List.mem_singleton] at member
    obtain earlier | rfl := member
    · exact tracks.prefix_seen other earlier
    · exact found_seen
  · simp [longer, tracks.written, plain]
  · intro index bytes
    simp only [TreeMap.getElem?_erase, longer, List.mem_append, List.mem_singleton]
    split
    · rename_i equal
      obtain rfl : found.index = index := by simpa using equal
      simp only [reduceCtorEq, false_iff]
      rintro ⟨other, other_seen, other_later, other_index, -⟩
      exact other_later (.inr (eq_of_index_eq distinct (known _ other_seen) entry_mem other_index))
    · rename_i different
      rw [tracks.pending]
      constructor
      · rintro ⟨other, other_seen, other_later, other_index, other_plain⟩
        refine ⟨other, other_seen, ?_, other_index, other_plain⟩
        rintro (earlier | rfl)
        · exact other_later earlier
        · exact different (by simp [other_index])
      · rintro ⟨other, other_seen, other_later, other_index, other_plain⟩
        exact ⟨other, other_seen, fun earlier => other_later (.inl earlier), other_index,
          other_plain⟩

/-- Draining with writes that succeed keeps the relation and stops at an entry not seen. -/
theorem drainPending_spec (distinct : (chunks.map ChunkMeta.index).Nodup)
    (known : ∀ entry ∈ seen, entry ∈ chunks) {remaining : List ChunkMeta} {cursor : WriteCursor}
    (tracks : CursorTracks decrypt chunks seen cursor)
    (position : chunks.drop cursor.nextPosition = remaining) :
    ∃ next, drainPending (remaining.map ChunkMeta.index) none cursor = (next, false) ∧
      CursorTracks decrypt chunks seen next ∧ CursorRests chunks seen next ∧
        next.firstError = cursor.firstError := by
  induction remaining generalizing cursor with
  | nil =>
      refine ⟨cursor, rfl, tracks, ?_, rfl⟩
      intro entry here
      obtain ⟨bound, -⟩ := List.getElem?_eq_some_iff.mp here
      have empty := List.drop_eq_nil_iff.mp position
      omega
  | cons entry rest ih =>
      have here : chunks[cursor.nextPosition]? = some entry := by
        rw [← List.head?_drop, position, List.head?_cons]
      cases arrived : cursor.pending[entry.index]? with
      | none =>
          refine ⟨cursor, by simp [drainPending, arrived], tracks, ?_, rfl⟩
          intro other other_here other_seen
          obtain rfl : entry = other := by simpa [here] using other_here
          -- Seen and not yet written means pending, and it is not.
          have later : entry ∉ chunks.take cursor.nextPosition := by
            intro earlier
            have whole : (chunks.take cursor.nextPosition ++ entry :: rest).Nodup := by
              rw [← position, List.take_append_drop]
              exact distinct.of_map
            exact (List.disjoint_of_nodup_append whole) earlier List.mem_cons_self
          have stored := (tracks.pending entry.index (plainOf decrypt entry)).mpr
            ⟨entry, other_seen, later, rfl, rfl⟩
          simp [arrived] at stored
      | some data =>
          have advanced := tracks.advance distinct known here arrived
          have shorter : chunks.drop (cursor.nextPosition + 1) = rest := by
            rw [← List.drop_drop, position, List.drop_one, List.tail_cons]
          obtain ⟨next, drained, outcome⟩ := ih advanced shorter
          exact ⟨next, by simpa [drainPending, arrived] using drained, outcome⟩

/-- What the loop variables know after the entries seen so far, with or without an error. -/
def CursorKnows (decrypt : ChunkMeta → DecryptResult) (chunks seen : List ChunkMeta)
    (cursor : WriteCursor) : Prop :=
  match cursor.firstError with
  | none => CursorTracks decrypt chunks seen cursor ∧ CursorRests chunks seen cursor
  | some _ => ∃ entry ∈ seen, ∃ failure, decrypt entry = .error failure

/-- One more result keeps what the loop variables know. -/
theorem consumeResult_spec (labelled : Labelled decrypt)
    (distinct : (chunks.map ChunkMeta.index).Nodup) (known : ∀ entry ∈ seen, entry ∈ chunks)
    {cursor : WriteCursor} {entry : ChunkMeta} (entry_mem : entry ∈ chunks)
    (fresh : entry ∉ seen) (knows : CursorKnows decrypt chunks seen cursor) :
    ∃ next, consumeResult (chunks.map ChunkMeta.index) none cursor (decrypt entry) =
        (next, false) ∧ CursorKnows decrypt chunks (entry :: seen) next := by
  unfold CursorKnows at knows
  cases result : decrypt entry with
  | error failure =>
      refine ⟨_, rfl, ?_⟩
      simp only [CursorKnows]
      exact ⟨entry, List.mem_cons_self, failure, result⟩
  | ok chunk =>
      cases seen_error : cursor.firstError with
      | some earlier =>
          obtain ⟨other, member, failure, failed⟩ := by simpa only [seen_error] using knows
          refine ⟨cursor, by simp [consumeResult, seen_error], ?_⟩
          simp only [CursorKnows, seen_error]
          exact ⟨other, List.mem_cons_of_mem _ member, failure, failed⟩
      | none =>
          obtain ⟨tracks, -⟩ := by simpa only [seen_error] using knows
          have same_index := labelled entry chunk result
          have plain : plainOf decrypt entry = chunk.data := by simp [plainOf, result]
          have inserted : CursorTracks decrypt chunks (entry :: seen)
              { cursor with pending := cursor.pending.insert chunk.index chunk.data } := by
            refine ⟨?_, ?_, tracks.written, ?_⟩
            · intro other member
              obtain rfl | member := List.mem_cons.mp member
              · exact ⟨chunk, result⟩
              · exact tracks.decrypted other member
            · exact fun other earlier => List.mem_cons_of_mem _ (tracks.prefix_seen other earlier)
            · intro index data
              simp only [TreeMap.getElem?_insert, List.mem_cons, exists_eq_or_imp]
              have later : entry ∉ chunks.take cursor.nextPosition :=
                fun earlier => fresh (tracks.prefix_seen entry earlier)
              split
              · rename_i equal
                obtain rfl : chunk.index = index := by simpa using equal
                constructor
                · intro stored
                  exact .inl ⟨later, same_index.symm, by simpa [plain] using stored⟩
                · rintro (⟨-, -, same_plain⟩ | ⟨other, member, -, other_index, -⟩)
                  · simp [← same_plain, plain]
                  · have equal := eq_of_index_eq distinct (known other member) entry_mem
                      (other_index.trans same_index)
                    exact absurd (equal ▸ member) fresh
              · rename_i different
                rw [tracks.pending]
                constructor
                · exact .inr
                · rintro (⟨-, entry_index, -⟩ | stored)
                  · exact absurd (by simp [same_index, entry_index]) different
                  · exact stored
          have known' : ∀ other ∈ entry :: seen, other ∈ chunks := by
            intro other member
            obtain rfl | member := List.mem_cons.mp member
            · exact entry_mem
            · exact known other member
          obtain ⟨next, drained, tracked, rests, same_error⟩ :=
            drainPending_spec distinct known' inserted rfl
          refine ⟨next, ?_, ?_⟩
          · simpa [consumeResult, seen_error, List.map_drop] using drained
          · simp only [CursorKnows, same_error, seen_error]
            exact ⟨tracked, rests⟩

end

section

variable {prims : Primitives} {disk : Disk} {paths : LibraryPaths} {manifest : Manifest}
  {fileKey : SymmetricKey} {workerCount : Nat}

/-- An outcome of the parallel reconstruction agrees with the sequential one. -/
def Agrees (prims : Primitives) (disk : Disk) (paths : LibraryPaths) (manifest : Manifest)
    (fileKey : SymmetricKey) (written : Bytes) (outcome : Except NetworkError Unit) : Prop :=
  let sequential := decryptLibraryChunksToFileSequential prims disk paths manifest fileKey
  (outcome = .ok () ↔ sequential.2 = .ok ()) ∧ (outcome = .ok () → written = sequential.1)

/-- Once every entry has been seen, the loop variables decide as the sequential writer does. -/
theorem agrees_of_knows {seen : List ChunkMeta} {cursor : WriteCursor}
    (all_seen : ∀ entry, entry ∈ seen ↔ entry ∈ manifest.chunks)
    (knows : CursorKnows (decryptLibraryChunk prims disk paths manifest.fileId fileKey)
      manifest.chunks seen cursor) :
    Agrees prims disk paths manifest fileKey cursor.written
      (reconstructOutcome prims manifest.fileId cursor) := by
  unfold CursorKnows at knows
  unfold Agrees
  cases seen_error : cursor.firstError with
  | some failure =>
      obtain ⟨entry, member, cause, failed⟩ := by simpa only [seen_error] using knows
      obtain ⟨error, sequential⟩ :=
        writeDecrypted_of_error ((all_seen entry).mp member) failed ([] : Bytes)
      have failing : (decryptLibraryChunksToFileSequential prims disk paths manifest
          fileKey).2 = .error error := by
        unfold decryptLibraryChunksToFileSequential
        split
        · rename_i written other outcome
          simpa [outcome] using sequential
        · rename_i written outcome
          simp [outcome] at sequential
      simp [reconstructOutcome, seen_error, failing]
  | none =>
      obtain ⟨tracks, rests⟩ := by simpa only [seen_error] using knows
      have complete : manifest.chunks.take cursor.nextPosition = manifest.chunks := by
        cases here : manifest.chunks[cursor.nextPosition]? with
        | none => exact List.take_of_length_le (List.getElem?_eq_none_iff.mp here)
        | some entry =>
            exact absurd ((all_seen entry).mpr (List.mem_of_getElem? here)) (rests entry here)
      have empty : cursor.pending.isEmpty = true := by
        apply TreeMap.isEmpty_iff_forall_not_mem.mpr
        intro index member
        obtain ⟨data, stored⟩ := Option.isSome_iff_exists.mp
          (TreeMap.isSome_getElem?_iff_mem.mpr member)
        obtain ⟨entry, entry_seen, later, -⟩ := (tracks.pending index data).mp stored
        exact later (by rw [complete]; exact (all_seen entry).mp entry_seen)
      have sequential : decryptLibraryChunksToFileSequential prims disk paths manifest fileKey =
          (cursor.written, finalizeStreamedOutput prims cursor.written manifest.fileId) := by
        have decrypted := fun entry member =>
          tracks.decrypted entry ((all_seen entry).mpr member)
        simp [decryptLibraryChunksToFileSequential, writeDecrypted_of_all_ok decrypted,
          tracks.written, complete]
      simp [reconstructOutcome, seen_error, empty, sequential]

/-- The entry a worker holds. -/
def DecryptWorker.entries : DecryptWorker → Multiset ChunkMeta
  | .sending entry => {entry}
  | .popping | .finished => 0

@[simp]
theorem DecryptWorker.entries_popping : DecryptWorker.popping.entries = 0 := rfl

@[simp]
theorem DecryptWorker.entries_finished : DecryptWorker.finished.entries = 0 := rfl

@[simp]
theorem DecryptWorker.entries_sending (entry : ChunkMeta) :
    (DecryptWorker.sending entry).entries = {entry} := rfl

/-- Every entry of the manifest has been seen, is in the channel, held by a worker, or queued. -/
def Reconstruction.Accounts (decrypt : ChunkMeta → DecryptResult) (manifest : Manifest)
    (state : Reconstruction workerCount) (seen : List ChunkMeta) : Prop :=
  ∃ inChannel : List ChunkMeta, state.channel = inChannel.map decrypt ∧
    (seen : Multiset ChunkMeta) + inChannel + (∑ worker, (state.workers worker).entries) +
      state.queue = manifest.chunks

namespace Reconstruction.Accounts

variable {decrypt : ChunkMeta → DecryptResult} {state : Reconstruction workerCount}
  {seen : List ChunkMeta} {worker : Fin workerCount}

theorem initial (manifest : Manifest) :
    (Reconstruction.initial manifest workerCount).Accounts decrypt manifest [] :=
  ⟨[], rfl, by simp [Reconstruction.initial, DecryptWorker.entries]⟩

/-- A worker's new position changes the entries held by that worker's entry. -/
theorem entries_update {before : DecryptWorker} (after : DecryptWorker)
    (position : state.workers worker = before) :
    (∑ other, (Function.update state.workers worker after other).entries) + before.entries =
      (∑ other, (state.workers other).entries) + after.entries := by
  rw [← position]
  exact sum_update_add state.workers worker after DecryptWorker.entries

theorem stop (accounts : state.Accounts decrypt manifest seen)
    (popping : state.workers worker = .popping) :
    Accounts decrypt manifest
      { state with workers := Function.update state.workers worker .finished } seen := by
  obtain ⟨inChannel, channel, places⟩ := accounts
  have held := entries_update .finished popping
  simp only [DecryptWorker.entries_popping, DecryptWorker.entries_finished, add_zero] at held
  exact ⟨inChannel, channel, by rw [held]; exact places⟩

theorem take {entry : ChunkMeta} {rest : List ChunkMeta}
    (accounts : state.Accounts decrypt manifest seen)
    (popping : state.workers worker = .popping) (queued : state.queue = entry :: rest) :
    Accounts decrypt manifest
      { state with
        queue := rest, workers := Function.update state.workers worker (.sending entry) }
      seen := by
  obtain ⟨inChannel, channel, places⟩ := accounts
  have held := entries_update (.sending entry) popping
  simp only [DecryptWorker.entries_popping, DecryptWorker.entries_sending, add_zero] at held
  refine ⟨inChannel, channel, ?_⟩
  rw [held, ← places, queued, ← Multiset.cons_coe, ← Multiset.singleton_add]
  abel

theorem send {entry : ChunkMeta} (accounts : state.Accounts decrypt manifest seen)
    (holding : state.workers worker = .sending entry) :
    Accounts decrypt manifest
      { state with
        channel := state.channel ++ [decrypt entry]
        workers := Function.update state.workers worker .popping } seen := by
  obtain ⟨inChannel, channel, places⟩ := accounts
  have held := entries_update .popping holding
  simp only [DecryptWorker.entries_popping, DecryptWorker.entries_sending, add_zero] at held
  refine ⟨inChannel ++ [entry], by simp [channel], ?_⟩
  rw [← places, ← held, ← Multiset.coe_add, Multiset.coe_singleton]
  abel

/-- A result that arrives is that of an entry, which has then been seen. -/
theorem receive {result : DecryptResult} {rest : List DecryptResult} (consumer : Consumer)
    (accounts : state.Accounts decrypt manifest seen) (arrived : state.channel = result :: rest) :
    ∃ entry, result = decrypt entry ∧
      Accounts decrypt manifest { state with channel := rest, consumer := consumer }
        (entry :: seen) := by
  obtain ⟨inChannel, channel, places⟩ := accounts
  cases inChannel with
  | nil => simp [arrived] at channel
  | cons entry later =>
      obtain ⟨rfl, rfl⟩ : result = decrypt entry ∧ rest = later.map decrypt := by
        simpa [arrived] using channel
      refine ⟨entry, rfl, later, rfl, ?_⟩
      rw [← places, ← Multiset.cons_coe, ← Multiset.cons_coe, ← Multiset.singleton_add,
        ← Multiset.singleton_add]
      abel

theorem seen_le (accounts : state.Accounts decrypt manifest seen) :
    (seen : Multiset ChunkMeta) ≤ manifest.chunks := by
  obtain ⟨inChannel, -, places⟩ := accounts
  rw [← places, add_assoc, add_assoc]
  exact Multiset.le_add_right _ _

/-- The entry seen last is one of the manifest and, if the indices are distinct, is seen once. -/
theorem fresh {entry : ChunkMeta} (distinct : manifest.indices.Nodup)
    (accounts : state.Accounts decrypt manifest (entry :: seen)) :
    entry ∈ manifest.chunks ∧ entry ∉ seen := by
  have nodup : (manifest.chunks : Multiset ChunkMeta).Nodup := distinct.of_map
  refine ⟨Multiset.mem_of_le accounts.seen_le (by simp), ?_⟩
  exact (List.nodup_cons.mp (Multiset.nodup_of_le accounts.seen_le nodup)).1

/-- When as many entries have been seen as there are, they are the entries of the manifest. -/
theorem seen_eq (accounts : state.Accounts decrypt manifest seen)
    (complete : manifest.chunks.length ≤ seen.length) :
    (seen : Multiset ChunkMeta) = manifest.chunks :=
  Multiset.eq_of_le_of_card_le accounts.seen_le (by simpa using complete)

end Reconstruction.Accounts

/-- What a reconstruction whose writes succeed knows in each phase. -/
def Reconstruction.Explained (prims : Primitives) (disk : Disk) (paths : LibraryPaths)
    (manifest : Manifest) (fileKey : SymmetricKey) (state : Reconstruction workerCount) : Prop :=
  let decrypt := decryptLibraryChunk prims disk paths manifest.fileId fileKey
  match state.consumer with
  | .receiving received cursor =>
      ∃ seen, seen.length = received ∧ state.Accounts decrypt manifest seen ∧
        CursorKnows decrypt manifest.chunks seen cursor
  | .joining _ cursor =>
      ∃ seen, (∀ entry, entry ∈ seen ↔ entry ∈ manifest.chunks) ∧
        CursorKnows decrypt manifest.chunks seen cursor
  | .unwinding _ _ => False
  | .returned written outcome => Agrees prims disk paths manifest fileKey written outcome

/-- Writes to the output succeed in this step. -/
def WritesSucceed : ReconstructEvent workerCount → Prop
  | .receive writes => writes = none
  | .pop _ | .send _ | .disconnected | .leaveLoop | .join => True

theorem explained_initial :
    (Reconstruction.initial manifest workerCount).Explained prims disk paths manifest fileKey := by
  refine ⟨[], rfl, .initial manifest, ?_⟩
  refine ⟨⟨by simp, by simp, by simp, by simp⟩, ?_⟩
  intro entry _
  simp

/-- A step of a worker moves entries about but keeps the consumer. -/
theorem Reconstruction.Explained.of_accounts {state next : Reconstruction workerCount}
    (explained : state.Explained prims disk paths manifest fileKey)
    (same : next.consumer = state.consumer)
    (keeps : ∀ seen,
      state.Accounts (decryptLibraryChunk prims disk paths manifest.fileId fileKey) manifest seen →
      next.Accounts (decryptLibraryChunk prims disk paths manifest.fileId fileKey) manifest seen) :
    next.Explained prims disk paths manifest fileKey := by
  unfold Reconstruction.Explained at explained ⊢
  rw [same]
  cases phase : state.consumer with
  | receiving received cursor =>
      simp only [phase] at explained ⊢
      obtain ⟨seen, count, accounts, knows⟩ := explained
      exact ⟨seen, count, keeps seen accounts, knows⟩
  | joining | returned => simpa only [phase] using explained
  | unwinding => simp only [phase] at explained

theorem explained_of_step (distinct : manifest.indices.Nodup) (staffed : 0 < workerCount)
    {state next : Reconstruction workerCount} {event : ReconstructEvent workerCount}
    (consistent : state.Consistent manifest)
    (explained : state.Explained prims disk paths manifest fileKey) (writes : WritesSucceed event)
    (step : (decryptLibraryChunksToFileParallel prims disk paths manifest fileKey
      workerCount).step state event = some next) :
    next.Explained prims disk paths manifest fileKey := by
  cases reconstructMove_of_step step with
  | stop popping empty => exact explained.of_accounts rfl fun _ accounts => accounts.stop popping
  | take popping queued =>
      exact explained.of_accounts rfl fun _ accounts => accounts.take popping queued
  | send holding room => exact explained.of_accounts rfl fun _ accounts => accounts.send holding
  | @receive choice received cursor nextCursor result rest waiting arrived more consumed =>
      obtain rfl : choice = none := writes
      simp only [Reconstruction.Explained, waiting] at explained ⊢
      obtain ⟨seen, count, accounts, knows⟩ := explained
      obtain ⟨entry, rfl, later⟩ := accounts.receive _ arrived
      obtain ⟨member, fresh⟩ := later.fresh distinct
      obtain ⟨reached, same, reached_knows⟩ :=
        consumeResult_spec (labelled_decryptLibraryChunk prims disk paths _ fileKey) distinct
          (fun other seen_other => Multiset.mem_of_le accounts.seen_le seen_other) member fresh
          knows
      obtain ⟨rfl, -⟩ : nextCursor = reached ∧ false = false := by
        simpa [Manifest.indices] using consumed.symm.trans same
      exact ⟨entry :: seen, by simp [count], later, reached_knows⟩
  | @writeFails choice received cursor nextCursor result rest waiting arrived more failed =>
      obtain rfl : choice = none := writes
      simp only [Reconstruction.Explained, waiting] at explained
      obtain ⟨seen, count, accounts, knows⟩ := explained
      obtain ⟨entry, rfl, later⟩ := accounts.receive state.consumer arrived
      obtain ⟨member, fresh⟩ := later.fresh distinct
      obtain ⟨reached, same, -⟩ :=
        consumeResult_spec (labelled_decryptLibraryChunk prims disk paths _ fileKey) distinct
          (fun other seen_other => Multiset.mem_of_le accounts.seen_le seen_other) member fresh
          knows
      simpa [Manifest.indices] using failed.symm.trans same
  | @disconnected received cursor waiting empty more finished =>
      have conserved := consistent.conserved received (by rw [waiting]; rfl)
      have total := conserved.all_in_channel finished staffed
      simp only [empty, List.length_nil] at total
      omega
  | @leaveLoop received cursor waiting complete =>
      simp only [Reconstruction.Explained, waiting] at explained ⊢
      obtain ⟨seen, count, accounts, knows⟩ := explained
      have all := accounts.seen_eq (by omega)
      refine ⟨seen, fun entry => ?_, knows⟩
      rw [← Multiset.mem_coe, all, Multiset.mem_coe]
  | @join received cursor joining finished =>
      simp only [Reconstruction.Explained, joining] at explained ⊢
      obtain ⟨seen, all_seen, knows⟩ := explained
      exact agrees_of_knows all_seen knows
  | @leaveScope received cursor unwinding finished =>
      simp only [Reconstruction.Explained, unwinding] at explained

/-- For distinct indices and at least one worker, every run whose writes succeed agrees with the
sequential reconstruction when it returns; it cannot stop before, and it cannot go on forever. -/
theorem parallelReconstruction_agrees_with_sequential (prims : Primitives) (disk : Disk)
    (paths : LibraryPaths) (manifest : Manifest) (fileKey : SymmetricKey) (workerCount : Nat)
    (distinct : manifest.indices.Nodup) (staffed : 1 ≤ workerCount)
    (events : List (ReconstructEvent workerCount)) (state : Reconstruction workerCount)
    (run : (decryptLibraryChunksToFileParallel prims disk paths manifest fileKey workerCount).run
      (.initial manifest workerCount) events = some state)
    (writes : ∀ event ∈ events, WritesSucceed event) :
    (∀ written outcome, state.consumer = .returned written outcome →
      (outcome = .ok () ↔
        (decryptLibraryChunksToFileSequential prims disk paths manifest fileKey).2 = .ok ()) ∧
      (outcome = .ok () →
        written = (decryptLibraryChunksToFileSequential prims disk paths manifest fileKey).1)) ∧
    ((decryptLibraryChunksToFileParallel prims disk paths manifest fileKey workerCount).Blocked
      state → state.HasReturned) ∧
    events.length ≤ (Reconstruction.initial manifest workerCount).weight := by
  have holds : state.Consistent manifest ∧
      state.Explained prims disk paths manifest fileKey :=
    @Machine.invariant_of_obeys _ _ _ (fun _ event => WritesSucceed event)
      (fun reached => reached.Consistent manifest ∧
        reached.Explained prims disk paths manifest fileKey)
      (fun before event after holds succeeds step =>
        ⟨consistent_of_step before event after holds.1 step,
          explained_of_step distinct staffed holds.1 holds.2 succeeds step⟩)
      _ state events ⟨consistent_initial manifest, explained_initial⟩
      (Machine.obeys_of_forall writes _) run
  refine ⟨?_, ?_, ?_⟩
  · intro written outcome returned
    have agrees := holds.2
    simp only [Reconstruction.Explained, returned] at agrees
    exact agrees
  · intro blocked
    by_contra running
    refine not_stuck_of_fits holds.1 ?_ ⟨blocked, running⟩
    intro received cursor unwinding
    simpa only [Reconstruction.Explained, unwinding] using holds.2
  · have bound := Machine.length_le_of_measure Reconstruction.weight weight_lt_of_step run
    omega

/-- Two chunks in reversed order, finished by one worker: the bytes come out in manifest order. -/
theorem parallelReconstruction_agrees_on_two_chunks :
    [(1 : UInt32), 0].Nodup ∧ 1 ≤ 1 ∧
    ∃ state,
      (decryptLibraryChunksToFileParallel transparentPrimitives oneByteDisk samplePaths
          (oneByteManifest [1, 0]) sampleKey 1).run (.initial (oneByteManifest [1, 0]) 1)
        [.pop 0, .send 0, .pop 0, .send 0, .pop 0, .receive none, .receive none, .leaveLoop,
          .join] = some state ∧
      state.consumer = .returned [1, 0] (.ok ()) ∧
      (decryptLibraryChunksToFileSequential transparentPrimitives oneByteDisk samplePaths
        (oneByteManifest [1, 0]) sampleKey).1 = [1, 0] := by
  refine ⟨by decide, le_rfl, _, rfl, rfl, ?_⟩
  have agrees := parallelReconstruction_agrees_with_sequential transparentPrimitives oneByteDisk
    samplePaths (oneByteManifest [1, 0]) sampleKey 1 (by decide) le_rfl
    [.pop 0, .send 0, .pop 0, .send 0, .pop 0, .receive none, .receive none, .leaveLoop, .join]
    _ rfl (by simp [WritesSucceed])
  exact ((agrees.1 _ _ rfl).2 rfl).symm

end

end Etle
