import Etle.Transfer.AttemptTrace
import Etle.Transfer.FailedDownload
import Etle.Transfer.RequestedShare
import Etle.Transfer.Resume
import Etle.Transfer.VerifiedRuns

/-!
# What a failed attempt leaves for the next one

The marks of stored chunks are flushed in batches, and the next attempt trusts only the progress on
disk.  A chunk that a failed attempt has stored is requested again exactly when its mark was still
waiting.
-/

namespace Etle

open Std (TreeMap TreeSet)

/-- The marks that wait for a flush after chunks have been stored in this order, each with whether
the flush interval was over. -/
def waitingMarks (marks : List (UInt32 × Bool)) : List UInt32 :=
  marks.foldl (fun waiting mark =>
    if progressFlushChunkInterval ≤ waiting.length + 1 || mark.2 then []
    else waiting ++ [mark.1]) []

theorem waitingMarks_append (marks : List (UInt32 × Bool)) (index : UInt32) (elapsed : Bool) :
    waitingMarks (marks ++ [(index, elapsed)]) =
      if progressFlushChunkInterval ≤ (waitingMarks marks).length + 1 || elapsed then []
      else waitingMarks marks ++ [index] := by
  simp [waitingMarks]

/-- The loop is about to count this chunk as completed. -/
def WindowedDownload.counts (state : WindowedDownload) (index : UInt32) : Prop :=
  index ∈ state.loop.completed ∨ ∃ chunk, state.phase = .persisted index chunk

/-- What the loop keeps about the chunks it has stored, given in order with whether the flush
interval was over. -/
structure MarksKept (paths : LibraryPaths) (state : WindowedDownload)
    (marks : List (UInt32 × Bool)) : Prop where
  dirty : ∀ library, state.session.active = some library →
    library.dirtyChunks = (waitingMarks marks).length
  counted : ∀ index ∈ marks.map Prod.fst, state.counts index
  flying : ∀ index ∈ state.loop.inFlight, ¬state.counts index
  /-- The progress on disk has what is counted, without the marks that wait. -/
  progress : ∃ progress, (state.session.disk paths).progress = .value progress ∧
    progress.shareId = paths.shareId ∧ progress.Ordered ∧
    ∀ index, index ∈ progress.completedChunks ↔
      state.counts index ∧ index ∉ waitingMarks marks

section

variable {prims : Primitives} {paths : LibraryPaths} {outputDir : Option PathBuf}

/-- A store that succeeds ends with recording the chunk. -/
theorem recordChunk_of_persistReply {session after : LibrarySession}
    {library : ActiveDownloadLibraryState} (active : session.active = some library)
    {inFlight : TreeMap UInt32 ChunkMeta} {elapsed : Bool} {frame : ReceivedChunkFrame}
    {temp : Option TempPath} {index : UInt32} {chunk : Option EncryptedChunk}
    (persisted : (persistReply prims outputDir inFlight elapsed frame temp).run session =
      .ok (index, chunk) after) :
    ∃ current, (recordChunk index outputDir elapsed library).run current = .ok () after := by
  obtain ⟨entry, before, -, same, ⟨path, moved⟩ | ⟨data, moved⟩⟩ := persistReply_eq_ok persisted
  · simp only [persistDownloadedChunkFile, EStateM.run_bind_eq_ok, EStateM.run_get,
      EStateM.Result.ok.injEq] at moved
    obtain ⟨_, _, ⟨rfl, rfl⟩, moved⟩ := moved
    simp only [same, active, EStateM.run_bind_eq_ok] at moved
    obtain ⟨_, _, -, _, current, -, recorded⟩ := moved
    exact ⟨current, recorded⟩
  · simp only [persistDownloadedChunk, EStateM.run_bind_eq_ok, EStateM.run_get,
      EStateM.Result.ok.injEq] at moved
    obtain ⟨_, _, ⟨rfl, rfl⟩, moved⟩ := moved
    simp only [same, active, EStateM.run_bind_eq_ok] at moved
    obtain ⟨_, current, -, recorded⟩ := moved
    exact ⟨current, recorded⟩

/-- A store that succeeds leaves a handle with its marks flushed or one more mark waiting. -/
theorem dirtyChunks_of_persistReply {session after : LibrarySession}
    {library : ActiveDownloadLibraryState} (active : session.active = some library)
    (owned : library.Owned) {inFlight : TreeMap UInt32 ChunkMeta} {elapsed : Bool}
    {frame : ReceivedChunkFrame} {temp : Option TempPath} {index : UInt32}
    {chunk : Option EncryptedChunk}
    (persisted : (persistReply prims outputDir inFlight elapsed frame temp).run session =
      .ok (index, chunk) after) :
    ∃ next, after.active = some next ∧ next.dirtyChunks =
      if progressFlushChunkInterval ≤ library.dirtyChunks + 1 || elapsed then 0
      else library.dirtyChunks + 1 := by
  obtain ⟨current, recorded⟩ := recordChunk_of_persistReply active persisted
  rw [run_recordChunk owned] at recorded
  have due : shouldFlushDownloadProgress (library.marked index) elapsed =
      (decide (progressFlushChunkInterval ≤ library.dirtyChunks + 1) || elapsed) := rfl
  rw [due] at recorded
  obtain rfl := (EStateM.Result.ok.inj recorded).2
  split
  · exact ⟨_, rfl, rfl⟩
  · exact ⟨_, rfl, rfl⟩

theorem counts_of_running {state : WindowedDownload} (running : state.phase = .running)
    (index : UInt32) : state.counts index ↔ index ∈ state.loop.completed := by
  simp [WindowedDownload.counts, running]

/-- A step that stores nothing and keeps the progress on disk, the handle and what is counted keeps
the marks. -/
theorem MarksKept.of_silent {state next : WindowedDownload} {event : WindowEvent}
    {steps : List LoopStep} (kept : MarksKept paths state (steps.filterMap LoopStep.stored))
    (silent : LoopStep.stored (state, event, next) = none)
    (active : next.session.active = state.session.active)
    (progress : (next.session.disk paths).progress = (state.session.disk paths).progress)
    (counts : ∀ index, next.counts index ↔ state.counts index)
    (flying : ∀ index ∈ next.loop.inFlight,
      index ∈ state.loop.inFlight ∨ ¬state.counts index) :
    MarksKept paths next ((steps ++ [(state, event, next)]).filterMap LoopStep.stored) := by
  rw [List.filterMap_append, List.filterMap_cons_none silent, List.filterMap_nil, List.append_nil]
  obtain ⟨stored, found, owned, ordered, members⟩ := kept.progress
  refine ⟨?_, ?_, ?_, stored, progress.trans found, owned, ordered, ?_⟩
  · rw [active]
    exact kept.dirty
  · intro index member
    exact (counts index).mpr (kept.counted index member)
  · intro index member
    rw [counts]
    exact (flying index member).elim (kept.flying index) id
  · intro index
    rw [members, counts]

variable {descriptor : EtleDescriptor} {fileKey : SymmetricKey} {before : Disk}
  {peerAvailable : TreeSet UInt32} {requestWindow : Nat}

/-- A loop that begins with the chunks of its library keeps no marks. -/
theorem MarksKept.initial {manifest : Manifest} {resumed : TreeSet UInt32}
    {session : LibrarySession} {library : ActiveDownloadLibraryState}
    (records : DownloadRecords paths descriptor fileKey before session library)
    (clean : library.dirtyChunks = 0)
    (marked : ∀ index, index ∈ library.progress.completedChunks ↔ index ∈ resumed) :
    MarksKept paths (.initial manifest resumed ∅ session requestWindow) [] := by
  have counts (index : UInt32) : (WindowedDownload.initial manifest resumed ∅ session
      requestWindow).counts index ↔ index ∈ resumed := counts_of_running rfl index
  refine ⟨fun other other_active => ?_, by simp, fun index flying => ?_, library.progress,
    records.flushed clean, ?_, records.ordered, fun index => ?_⟩
  · obtain rfl := Option.some.inj (records.active.symm.trans other_active)
    exact clean
  · simp [WindowedDownload.initial, WindowLoop.initial] at flying
  · rw [← records.located]
    exact records.owned
  · rw [marked, counts]
    simp [waitingMarks]

/-- A stored chunk is marked, and its mark is on disk or waits. -/
theorem MarksKept.of_persisted {state : WindowedDownload} {marks : List (UInt32 × Bool)}
    {library : ActiveDownloadLibraryState} (kept : MarksKept paths state marks)
    (records : WindowRecords prims paths descriptor fileKey before state library)
    {elapsed : Bool} {frame : ReceivedChunkFrame} {temp : Option TempPath} {index : UInt32}
    {chunk : Option EncryptedChunk} {session : LibrarySession}
    (phase : state.phase = .received frame temp)
    (persisted : (persistReply prims outputDir state.loop.inFlight elapsed frame temp).run
      state.session = .ok (index, chunk) session) :
    MarksKept paths
      { loop := { state.loop with inFlight := state.loop.inFlight.erase index }
        session, phase := .persisted index chunk } (marks ++ [(index, elapsed)]) := by
  obtain ⟨records, received, marked⟩ := records
  obtain ⟨path, rfl, same, arrived⟩ := received frame temp phase
  obtain ⟨found, content, entry, after, outcome, flying, files, data, recorded, -⟩ |
      ⟨error, disk, outcome, -⟩ :=
    persistReply_spec outputDir elapsed records.active records.owned
      (same.trans records.located.symm) state.loop.inFlight arrived
  swap
  · simp [outcome] at persisted
  obtain ⟨⟨rfl, rfl⟩, rfl⟩ : (found = index ∧ content = chunk) ∧ after = session := by
    simpa using outcome.symm.trans persisted
  have located := records.located
  have before_counts (other : UInt32) : state.counts other ↔ other ∈ state.loop.completed := by
    simp [WindowedDownload.counts, phase]
  have uncounted : ¬state.counts found :=
    kept.flying found (TreeMap.mem_iff_isSome_getElem?.mpr (by simp [flying]))
  obtain ⟨stored, stored_found, stored_owned, stored_ordered, members⟩ := kept.progress
  obtain ⟨next, next_active, next_dirty⟩ :=
    dirtyChunks_of_persistReply records.active records.owned persisted
  rw [kept.dirty library records.active] at next_dirty
  have counts (other : UInt32) : WindowedDownload.counts
      { loop := { state.loop with inFlight := state.loop.inFlight.erase found }
        session := after, phase := .persisted found content } other ↔
      state.counts other ∨ other = found := by
    rw [before_counts]
    simp [WindowedDownload.counts, eq_comm]
  refine ⟨fun other active => ?_, fun other member => ?_, fun other member => ?_, ?_⟩
  · obtain rfl : next = other := Option.some.inj (next_active.symm.trans active)
    rw [next_dirty, waitingMarks_append]
    split <;> simp
  · rw [counts]
    obtain earlier | rfl : other ∈ marks.map Prod.fst ∨ other = found := by simpa using member
    · exact .inl (kept.counted other earlier)
    · exact .inr rfl
  · obtain ⟨different, still⟩ := TreeMap.mem_erase.mp member
    rw [counts]
    rintro (counted | rfl)
    · exact kept.flying other still counted
    · simp at different
  · by_cases due : (decide (progressFlushChunkInterval ≤ (waitingMarks marks).length + 1) ||
        elapsed) = true
    · -- The flush writes the progress of the handle, which has everything that is counted.
      rw [if_pos due] at next_dirty
      obtain ⟨after_active, progress, -⟩ | ⟨after_active, -⟩ := recorded.records
      · refine ⟨_, by rw [← located]; exact progress, ?_,
          records.ordered.markCompleted found, fun other => ?_⟩
        · rw [← located]
          exact records.owned.marked found
        · rw [waitingMarks_append, if_pos due, counts, before_counts]
          simp only [DownloadProgress.mem_markCompleted records.ordered, marked, phase]
          simp [or_comm]
      · obtain rfl := Option.some.inj (next_active.symm.trans after_active)
        simp [ActiveDownloadLibraryState.marked] at next_dirty
    · rw [if_neg due] at next_dirty
      obtain ⟨after_active, -⟩ | ⟨after_active, progress, -⟩ := recorded.records
      · obtain rfl := Option.some.inj (next_active.symm.trans after_active)
        simp at next_dirty
      · rw [located] at progress
        refine ⟨stored, progress.trans stored_found, stored_owned, stored_ordered, fun other => ?_⟩
        rw [waitingMarks_append, if_neg due, counts, members, List.mem_append, List.mem_singleton]
        constructor
        · rintro ⟨counted, not_waiting⟩
          refine ⟨.inl counted, ?_⟩
          rintro (waiting | rfl)
          · exact not_waiting waiting
          · exact uncounted counted
        · rintro ⟨counted, fresh⟩
          exact ⟨counted.resolve_right fun same => fresh (.inr same),
            fun waiting => fresh (.inl waiting)⟩

/-- Every step of the chunk loop keeps the records and the marks. -/
theorem marksKept_of_step (state : WindowedDownload) (event : WindowEvent)
    (next : WindowedDownload) (steps : List LoopStep)
    (kept : (∃ library, WindowRecords prims paths descriptor fileKey before state library) ∧
      MarksKept paths state (steps.filterMap LoopStep.stored))
    (step : (downloadMissingChunksWindowed prims outputDir peerAvailable requestWindow).step state
      event = some next) :
    (∃ library, WindowRecords prims paths descriptor fileKey before next library) ∧
      MarksKept paths next ((steps ++ [(state, event, next)]).filterMap LoopStep.stored) := by
  obtain ⟨⟨library, records⟩, kept⟩ := kept
  refine ⟨windowRecords_of_step state event next ⟨library, records⟩ step, ?_⟩
  cases windowMove_of_step step with
  | skip running room here needless =>
      exact kept.of_silent rfl rfl rfl (fun _ => .rfl) fun _ flying => .inl flying
  | @send entry rest running room here missing has =>
      refine kept.of_silent rfl rfl rfl (fun _ => .rfl) fun index member => ?_
      obtain same | flying := TreeMap.mem_insert.mp member
      · obtain rfl : entry.index = index := by simpa using same
        exact .inr fun counted => missing ((counts_of_running running _).mp counted)
      · exact .inl flying
  | sendFails running failed | finish running full empty =>
      exact kept.of_silent rfl rfl rfl (by simp [WindowedDownload.counts, running])
        fun _ flying => .inl flying
  | receive running full waiting active arrived =>
      obtain ⟨same_active, only, -⟩ := receiveChunkToFile_ok arrived
      exact kept.of_silent rfl same_active (only.progress paths)
        (by simp [WindowedDownload.counts, running]) fun _ flying => .inl flying
  | receiveFails running full waiting active failed =>
      obtain ⟨same_active, only⟩ := receiveChunkToFile_error failed
      exact kept.of_silent rfl same_active (only.progress paths)
        (by simp [WindowedDownload.counts, running]) fun _ flying => .inl flying
  | receiveMessage running full waiting active arrived =>
      simp [records.records.active] at active
  | receiveMessageFails running full waiting active failed =>
      simp [records.records.active] at active
  | persist phase persisted =>
      rw [List.filterMap_append]
      exact kept.of_persisted records phase persisted
  | @persistFails elapsed frame temp error session phase failed =>
      obtain ⟨path, rfl, same, arrived⟩ := records.received frame temp phase
      obtain ⟨found, content, entry, after, outcome, -⟩ | ⟨cause, disk, outcome, only⟩ :=
        persistReply_spec outputDir elapsed records.records.active records.records.owned
          (same.trans records.records.located.symm) state.loop.inFlight arrived
      · simp [outcome] at failed
      · obtain ⟨-, rfl⟩ : cause = error ∧ _ = session := by
          simpa using outcome.symm.trans failed
        exact kept.of_silent rfl rfl (only.progress paths)
          (by simp [WindowedDownload.counts, phase]) fun _ flying => .inl flying
  | complete persisted kept_chunks positive =>
      refine kept.of_silent rfl rfl rfl (fun other => ?_) fun _ flying => .inl flying
      simp [WindowedDownload.counts, persisted, or_comm]

end

/-! ## The failed attempt -/

section

variable {prims : Primitives} {outputPath : PathBuf} {options : DownloadFileOptions}
  {attempt : Attempt} {world after : DownloadWorld} {error : NetworkError} {root : PathBuf}
  {paths : LibraryPaths} {peer : ConnectedDownloadPeer} {start : WindowedDownload}

/-- What a failed attempt leaves of its share, given the chunks it has stored. -/
structure LeftForResume (prims : Primitives) (paths : LibraryPaths) (manifest : Manifest)
    (marks : List (UInt32 × Bool)) (disk : Disk) : Prop where
  described : (disk paths).descriptor = .value (descriptorFromManifest prims manifest)
  marked : ∀ index ∈ marks.map Prod.fst, VerifiedIndex prims manifest (disk paths) index
  /-- The progress has every stored chunk whose mark does not wait and none whose mark does. -/
  progress : ∃ progress, (disk paths).progress = .value progress ∧
    progress.shareId = paths.shareId ∧ progress.Ordered ∧
    ∀ index ∈ marks.map Prod.fst,
      index ∈ progress.completedChunks ↔ index ∉ waitingMarks marks

/-- The library of an attempt when its loop has ended. -/
theorem leftForResume_of_run (withLibrary : options.libraryRoot = some root)
    (here : paths = { root, shareId := (descriptorFromManifest prims peer.manifest).shareId })
    (entered : attempt.enterLoop prims outputPath options world = some (peer, start))
    {final : WindowedDownload}
    (run : (downloadMissingChunksWindowed prims (outputParentDir outputPath) peer.availableChunks
      options.requestWindow).run start attempt.windowEvents = some final) :
    LeftForResume prims paths peer.manifest
        (attempt.storedChunks prims outputPath options world) final.session.disk ∧
      ∃ library, final.session.active = some library ∧ library.Owned := by
  obtain ⟨connection, answered, announced, completed, chunks, session, -, -, prepared, -, rfl⟩ :=
    enterLoop_eq_some.mp entered
  obtain ⟨failure, -, stopped⟩ | ⟨failure, stopped_session, stopped, -⟩ |
      ⟨resumed, resumed_session, library, opened, records, clean, marked, before, handle, active,
        loaded⟩ :=
    run_prepareDownload withLibrary (outputParentDir outputPath) peer world.disk here
  · simp [stopped] at prepared
  · simp [stopped] at prepared
  obtain ⟨⟨rfl, rfl⟩, rfl⟩ : (resumed = completed ∧ ∅ = chunks) ∧ resumed_session = session := by
    simpa using opened.symm.trans prepared
  have start_records : ∃ library, WindowRecords prims paths
      (descriptorFromManifest prims peer.manifest) peer.fileKey world.disk
      (.initial peer.manifest resumed ∅ resumed_session options.requestWindow) library :=
    ⟨library, records, by simp [WindowedDownload.initial], fun index =>
      (marked index).trans (@counts_of_running (.initial peer.manifest resumed ∅ resumed_session
        options.requestWindow) rfl index).symm⟩
  obtain ⟨⟨final_library, final_records, -⟩, kept⟩ := @Machine.invariant_of_trace _ _ _ _
    marksKept_of_step _ _ _ [] ⟨start_records, .initial records clean marked⟩ run
  obtain ⟨verified_library, verified⟩ := windowVerified_of_reaches active loaded ⟨_, run⟩
  obtain rfl := Option.some.inj (final_records.active.symm.trans verified.download.active)
  have steps : attempt.storedChunks prims outputPath options world =
      ([] ++ (downloadMissingChunksWindowed prims (outputParentDir outputPath)
        peer.availableChunks options.requestWindow).trace (.initial peer.manifest resumed ∅
          resumed_session options.requestWindow) attempt.windowEvents).filterMap
          LoopStep.stored := by
    simp [Attempt.storedChunks, Attempt.loopSteps, entered]
  rw [steps]
  refine ⟨⟨final_records.described, fun index member => ?_, ?_⟩, final_library,
    final_records.active, final_records.owned⟩
  · rw [← final_records.located]
    obtain done | ⟨chunk, phase⟩ := kept.counted index member
    · exact verified.download.completed index done
    · exact verified.persisted index chunk phase
  · obtain ⟨progress, stored, owned, ordered, members⟩ := kept.progress
    refine ⟨progress, stored, owned, ordered, fun index member => ?_⟩
    rw [members]
    exact and_iff_right (kept.counted index member)

/-- The library of a failed attempt that has entered its loop. -/
theorem leftForResume_of_failed (withLibrary : options.libraryRoot = some root)
    (here : paths = { root, shareId := (descriptorFromManifest prims peer.manifest).shareId })
    (entered : attempt.enterLoop prims outputPath options world = some (peer, start))
    (failed : fromPeerWith prims outputPath options attempt world = some (.error error after)) :
    LeftForResume prims paths peer.manifest (attempt.storedChunks prims outputPath options world)
      after.disk := by
  rw [fromPeerWith_of_enterLoop entered] at failed
  split at failed
  · rename_i loop session run
    obtain ⟨left, library, active, owned⟩ := leftForResume_of_run withLibrary here entered run
    unfold finishDownload at failed
    split at failed
    · obtain ⟨-, rfl⟩ : _ = error ∧ _ = after := by simpa using failed
      exact left
    · have active : session.active = some library := active
      rw [if_pos (by simp [active])] at failed
      rw [finishFromLibrary_error active owned failed]
      exact left
  · rename_i loop session cause run
    obtain ⟨-, rfl⟩ : _ = error ∧ _ = after := by simpa using failed
    exact (leftForResume_of_run withLibrary here entered run).1
  · cases failed

/-! ## The next attempt -/

/-- The peer of an attempt that reaches its chunk loop has sent this manifest. -/
def Attempt.IsFor (prims : Primitives) (outputPath : PathBuf) (options : DownloadFileOptions)
    (attempt : Attempt) (world : DownloadWorld) (manifest : Manifest) : Prop :=
  ∀ peer start, attempt.enterLoop prims outputPath options world = some (peer, start) →
    peer.manifest = manifest

/-- An attempt that resumes the library for a manifest requests none of the given chunks. -/
def ReusesChunks (prims : Primitives) (root : PathBuf) (manifest : Manifest)
    (chunks : List UInt32) (disk : Disk) : Prop :=
  ∀ (outputPath : PathBuf) (options : DownloadFileOptions) (attempt : Attempt)
    (outputs : PathBuf → Option Bytes),
    options.libraryRoot = some root → options.resume = true →
    attempt.IsFor prims outputPath options { disk, outputs } manifest →
    ∀ index ∈ chunks, index ∉ attempt.requestedChunks prims outputPath options { disk, outputs }

/-- A chunk that the stored progress lists has a file of another size than the manifest says, so
that resuming stops with an error. -/
def ResumeRefused (disk : Disk) (paths : LibraryPaths) (manifest : Manifest) : Prop :=
  ∃ progress, readProgress disk paths = .ok progress ∧
    ∃ entry ∈ manifest.chunks, entry.index ∈ progress.completedChunks ∧
      ∃ data, (disk paths).chunks (.chunk entry.index) = some data ∧
        UInt64.ofNat data.length ≠ entry.encryptedSize

variable {manifest : Manifest} {marks : List (UInt32 × Bool)} {disk : Disk}

/-- What a failed attempt leaves is read back by the next one. -/
theorem LeftForResume.storedProgress (left : LeftForResume prims paths manifest marks disk)
    (owned : (descriptorFromManifest prims manifest).shareId = paths.shareId) :
    ∃ progress, readProgress disk paths = .ok progress ∧
      Etle.storedProgress prims disk paths true = .ok progress ∧ progress.Ordered ∧
      ∀ index ∈ marks.map Prod.fst,
        index ∈ progress.completedChunks ↔ index ∉ waitingMarks marks := by
  obtain ⟨progress, stored, progress_owned, ordered, members⟩ := left.progress
  have read := readProgress_of_value stored progress_owned
  refine ⟨progress, read, ?_, ordered, members⟩
  have described := readDescriptor_of_value left.described owned
    (verifyShareId_descriptorFromManifest prims manifest)
  simp [Etle.storedProgress, stored, Stored.isFile, left.described, described, read, bind,
    Except.bind, pure, Except.pure]

/-- Only what is missing is requested. -/
theorem not_mem_completed_of_requested {peerAvailable : TreeSet UInt32} {requestWindow : Nat}
    {outputDir : Option PathBuf} {start : WindowedDownload} {events : List WindowEvent}
    {index : UInt32}
    (requested : index ∈ ((downloadMissingChunksWindowed prims outputDir peerAvailable
      requestWindow).trace start events).filterMap (LoopStep.requested peerAvailable)) :
    index ∉ start.loop.completed := by
  obtain ⟨⟨state, event, next⟩, taken, asked⟩ := List.mem_filterMap.mp requested
  obtain ⟨reach, -⟩ := Machine.reaches_of_mem_trace taken
  have grows : ∀ other ∈ start.loop.completed, other ∈ state.loop.completed := by
    refine @Machine.invariant_of_reaches _ _ _
      (fun state => ∀ other ∈ start.loop.completed, other ∈ state.loop.completed)
      (fun state event next grows step => ?_) _ _ (fun _ member => member) reach
    intro other member
    cases windowMove_of_step step with
    | complete => exact TreeSet.mem_insert.mpr (.inr (grows other member))
    | _ => exact grows other member
  intro done
  cases event with
  | request failure =>
      simp only [LoopStep.requested] at asked
      split at asked
      · rename_i request loop running turn
        obtain ⟨entry, rest, -, -, ⟨rfl, -⟩ | ⟨rfl, missing, -⟩⟩ := next_eq_some turn
        · cases asked
        · obtain rfl := Option.some.inj asked
          exact missing (grows _ done)
      · cases asked
  | _ => cases asked

/-- An attempt that resumes has found every listed chunk file in its size, and has completed what
is listed and verified before its first request. -/
theorem resumed_of_enterLoop {outputs : PathBuf → Option Bytes}
    (withLibrary : options.libraryRoot = some root) (resumes : options.resume = true)
    (here : paths = { root, shareId := (descriptorFromManifest prims peer.manifest).shareId })
    (entered : attempt.enterLoop prims outputPath options { disk, outputs } = some (peer, start))
    {progress : DownloadProgress} (read : storedProgress prims disk paths true = .ok progress)
    (ordered : progress.Ordered) :
    (∀ entry ∈ peer.manifest.chunks, entry.index ∈ progress.completedChunks →
      ∀ data, (disk paths).chunks (.chunk entry.index) = some data →
        UInt64.ofNat data.length = entry.encryptedSize) ∧
    ∀ index ∈ progress.completedChunks, VerifiedIndex prims peer.manifest (disk paths) index →
      index ∈ start.loop.completed := by
  obtain ⟨_, _, _, completed, chunks, session, -, -, prepared, -, rfl⟩ :=
    enterLoop_eq_some.mp entered
  obtain ⟨opened, dir, loaded⟩ := loaded_of_prepareDownload withLibrary here
    (by rw [resumes]; exact read) prepared
  obtain ⟨valid, found, rfl, -⟩ := loadResumableChunkIndexes_eq_ok rfl loaded
  have found_sizes := sizes_of_resumableEntries found
  have files : (Function.update disk paths opened paths).chunks = (disk paths).chunks := by
    rw [Function.update_self, dir.chunks]
  have sizes : ∀ entry ∈ peer.manifest.chunks, entry.index ∈ progress.completedChunks →
      ∀ data, (disk paths).chunks (.chunk entry.index) = some data →
        UInt64.ofNat data.length = entry.encryptedSize := by
    intro entry member listed data stored
    exact found_sizes entry member ((DownloadProgress.hasChunk_iff ordered _).mpr listed) data
      (by rw [files]; exact stored)
  refine ⟨sizes, ?_⟩
  rintro index listed ⟨entry, member, rfl, data, stored, hash⟩
  refine mem_completedOver.mpr (List.mem_map_of_mem ((mem_resumableEntries found entry).mpr
    ⟨member, (DownloadProgress.hasChunk_iff ordered _).mpr listed, ?_⟩))
  exact chunkVerifies_iff.mpr ⟨data, by rw [files]; exact stored,
    sizes entry member listed data stored, hash⟩

/-- A progress that cannot be resumed lets no attempt reach its loop, and one with every mark
leaves nothing to request. -/
theorem LeftForResume.reusesChunks (left : LeftForResume prims paths manifest marks disk)
    (here : paths = { root, shareId := (descriptorFromManifest prims manifest).shareId })
    {chunks : List UInt32} (stored : ∀ index ∈ chunks, index ∈ marks.map Prod.fst)
    (condition : (∀ index ∈ chunks, index ∉ waitingMarks marks) ∨
      ResumeRefused disk paths manifest) : ReusesChunks prims root manifest chunks disk := by
  obtain ⟨progress, read, resumed, ordered, members⟩ := left.storedProgress (by rw [here])
  intro outputPath options attempt outputs withLibrary resumes isFor index member requested
  cases entered : attempt.enterLoop prims outputPath options { disk, outputs } with
  | none => simp [Attempt.requestedChunks, entered] at requested
  | some reached =>
      obtain ⟨peer, start⟩ := reached
      obtain rfl := isFor peer start entered
      obtain ⟨sizes, completed⟩ :=
        resumed_of_enterLoop withLibrary resumes here entered resumed ordered
      obtain flushed | ⟨other, other_read, entry, in_manifest, listed, data, found, different⟩ :=
        condition
      · have missing : index ∉ start.loop.completed := by
          simp only [Attempt.requestedChunks, Attempt.loopSteps, entered] at requested
          exact not_mem_completed_of_requested requested
        exact missing (completed index ((members index (stored index member)).mpr
          (flushed index member)) (left.marked index (stored index member)))
      · obtain rfl : progress = other := by simpa [read] using other_read
        exact different (sizes entry in_manifest listed data found)

/-- A missing chunk is requested from a peer that has only this one. -/
theorem exists_request {peerAvailable : TreeSet UInt32} {requestWindow : Nat}
    {outputDir : Option PathBuf} {index : UInt32}
    (alone : ∀ other, other ∈ peerAvailable ↔ other = index) {loop : WindowLoop}
    (session : LibrarySession) (room : loop.inFlight.size < loop.activeRequestWindow)
    (listed : index ∈ loop.todo.map ChunkMeta.index) (missing : index ∉ loop.completed) :
    ∃ events, index ∈ ((downloadMissingChunksWindowed prims outputDir peerAvailable
      requestWindow).trace { loop, session, phase := .running } events).filterMap
        (LoopStep.requested peerAvailable) := by
  obtain ⟨todo, inFlight, window, since, chunks, completed⟩ := loop
  dsimp only at room listed missing
  induction todo with
  | nil => simp at listed
  | cons entry rest ih =>
      by_cases wanted : entry.index = index
      · subst wanted
        have turn : WindowLoop.next peerAvailable
            ⟨entry :: rest, inFlight, window, since, chunks, completed⟩ =
            some (some entry.index, ⟨rest, inFlight.insert entry.index entry, window, since,
              chunks, completed⟩) := by
          simp [WindowLoop.next, room, TreeSet.contains_eq_false_of_not_mem missing,
            (alone entry.index).mpr rfl]
        have step : (downloadMissingChunksWindowed prims outputDir peerAvailable
            requestWindow).step ⟨⟨entry :: rest, inFlight, window, since, chunks, completed⟩,
              session, .running⟩ (.request none) = some ⟨⟨rest,
              inFlight.insert entry.index entry, window, since, chunks, completed⟩, session,
              .running⟩ := by
          simp [downloadMissingChunksWindowed, requestNext, turn]
        refine ⟨[.request none], ?_⟩
        rw [Machine.trace_cons [] step]
        simp [LoopStep.requested, turn]
      · have later : index ∈ rest.map ChunkMeta.index := by
          simpa [Ne.symm wanted] using listed
        obtain ⟨events, requested⟩ := ih later
        have elsewhere : entry.index ∉ peerAvailable := fun has => wanted ((alone _).mp has)
        refine ⟨.request none :: events, ?_⟩
        rw [Machine.trace_cons events (step_of_needless session room (.inr elsewhere)),
          List.mem_filterMap]
        obtain ⟨taken, member, asked⟩ := List.mem_filterMap.mp requested
        exact ⟨taken, List.mem_cons_of_mem _ member, asked⟩

/-- A peer that sends a manifest and has one chunk of it. -/
theorem exists_attempt_with {connection answered : Connection} {secret : Bytes32}
    (negotiated : (connectDownloadPeer prims secret options).run connection =
      .ok peer answered) (index : UInt32) :
    ∃ opened rest : Connection,
      (connectDownloadPeer prims secret { options with resume := true }).run opened =
        .ok { peer with availableChunks := [index].foldl (fun set index => set.insert index) ∅ }
          rest ∧ rest.sendLimit = none := by
  obtain ⟨replies, accepted, described, -⟩ := run_connectDownloadPeer_eq_ok.mp negotiated
  let offer : NegotiationReplies := { replies with chunks := [index] }
  refine ⟨⟨offer.frames prims options, none, []⟩,
    ⟨[], none, negotiationRequests prims options replies.keys⟩,
    run_connectDownloadPeer_eq_ok.mpr ⟨offer, ⟨accepted.capabilities, accepted.keys,
      accepted.unwraps⟩, ?_, ⟨?_, by simp, rfl, rfl⟩⟩, rfl⟩
  · rw [described]
    rfl
  · simp [NegotiationReplies.frames]

/-- A chunk that resuming does not find is requested by some next attempt. -/
theorem exists_attempt_requesting (withLibrary : options.libraryRoot = some root)
    (here : paths = { root, shareId := (descriptorFromManifest prims peer.manifest).shareId })
    {connection answered : Connection} {secret : Bytes32}
    (negotiated : (connectDownloadPeer prims secret options).run connection =
      .ok peer answered) {progress : DownloadProgress}
    (read : storedProgress prims disk paths true = .ok progress) (ordered : progress.Ordered)
    (sizes : ∀ entry ∈ peer.manifest.chunks, entry.index ∈ progress.completedChunks →
      ∀ data, (disk paths).chunks (.chunk entry.index) = some data →
        UInt64.ofNat data.length = entry.encryptedSize) {index : UInt32}
    (listed : index ∈ peer.manifest.indices) (missing : index ∉ progress.completedChunks) :
    ¬ReusesChunks prims root peer.manifest [index] disk := by
  obtain ⟨opened, rest, reached, unlimited⟩ := exists_attempt_with negotiated index
  obtain ⟨dir, records, prepared⟩ := @run_prepareDownload_of_stored prims paths
    { options with resume := true } root withLibrary (outputParentDir [])
    { peer with availableChunks := [index].foldl (fun set index => set.insert index) ∅ } disk here _
    read
  have same_sizes : ∀ entry ∈ peer.manifest.chunks, progress.hasChunk entry.index = true →
      ∀ data, (Function.update disk paths dir paths).chunks (.chunk entry.index) = some data →
        UInt64.ofNat data.length = entry.encryptedSize := by
    intro entry member recorded data stored
    rw [Function.update_self, records.chunks] at stored
    exact sizes entry member ((DownloadProgress.hasChunk_iff ordered _).mp recorded) data stored
  obtain ⟨valid, found, members⟩ := @resumableEntries_of_sizes prims
    (Function.update disk paths dir) ⟨paths, progress, 0⟩ _ same_sizes
  rw [run_loadResumableChunkIndexes_of_valid (outputParentDir []) rfl found] at prepared
  obtain ⟨announced, sent⟩ := run_announceCompleted unlimited
    (completedOver (valid.map Prod.fst))
  have unknown : index ∉ completedOver (valid.map Prod.fst) := by
    intro done
    obtain ⟨entry, resumed, rfl⟩ := List.mem_map.mp (mem_completedOver.mp done)
    exact missing ((DownloadProgress.hasChunk_iff ordered _).mp ((members entry).mp resumed).2.1)
  have alone (other : UInt32) :
      other ∈ [index].foldl (fun (set : TreeSet UInt32) index => set.insert index) ∅ ↔
        other = index := by
    rw [TreeSet.mem_foldl_insert]
    simp
  have room : (WindowLoop.initial peer.manifest (completedOver (valid.map Prod.fst)) ∅
      options.requestWindow).inFlight.size <
      (WindowLoop.initial peer.manifest (completedOver (valid.map Prod.fst)) ∅
        options.requestWindow).activeRequestWindow := by
    simp [WindowLoop.initial, initialRequestWindow]
  obtain ⟨events, requested⟩ := @exists_request prims _ options.requestWindow (outputParentDir [])
    index alone _ (resumedSession (outputParentDir []) _ _ (valid.map Prod.fst)) room listed unknown
  intro reuses
  let next : Attempt := ⟨⟨.ok opened, secret⟩, events, ⟨none, fun _ => []⟩⟩
  have entered := (@enterLoop_eq_some prims [] { options with resume := true } next
    { disk, outputs := fun _ => none } _ _).mpr ⟨opened, rest, announced, _, _, _, rfl, reached,
      prepared, sent, rfl⟩
  refine reuses [] { options with resume := true } next (fun _ => none) withLibrary rfl ?_ index
    (by simp) ?_
  · intro other start other_entered
    obtain ⟨rfl, -⟩ : _ = other ∧ _ := by simpa [entered] using other_entered
    rfl
  · simp only [Attempt.requestedChunks, Attempt.loopSteps, entered]
    exact requested

/-- A chunk whose file an attempt has moved into the library is one it has stored. -/
theorem mem_storedChunks_of_persistedFile {index : UInt32}
    (persisted : index ∈ attempt.persistedFiles prims outputPath options world) :
    index ∈ (attempt.storedChunks prims outputPath options world).map Prod.fst := by
  obtain ⟨⟨state, event, next⟩, taken, moved⟩ := List.mem_filterMap.mp persisted
  cases event with
  | persist elapsed =>
      refine List.mem_map.mpr ⟨(index, elapsed), List.mem_filterMap.mpr ⟨_, taken, ?_⟩, rfl⟩
      simp only [LoopStep.persistedFile] at moved
      split at moved
      · rename_i found phase
        obtain rfl := Option.some.inj moved
        simp [LoopStep.stored, phase]
      · cases moved
  | _ => cases moved

/-- The next attempt requests none of the chunks that a failed one has persisted exactly when none
of their marks was waiting, or the stored progress cannot be resumed. -/
theorem reusesChunks_iff (withLibrary : options.libraryRoot = some root)
    (isFor : attempt.IsFor prims outputPath options world manifest)
    (failed : fromPeerWith prims outputPath options attempt world = some (.error error after)) :
    ReusesChunks prims root manifest (attempt.persistedFiles prims outputPath options world)
        after.disk ↔
      (∀ index ∈ attempt.persistedFiles prims outputPath options world,
        index ∉ waitingMarks (attempt.storedChunks prims outputPath options world)) ∨
      ResumeRefused after.disk
        { root, shareId := (descriptorFromManifest prims manifest).shareId } manifest := by
  cases entered : attempt.enterLoop prims outputPath options world with
  | none =>
      have nothing : attempt.persistedFiles prims outputPath options world = [] := by
        simp [Attempt.persistedFiles, Attempt.loopSteps, entered]
      simp [ReusesChunks, nothing]
  | some reached =>
      obtain ⟨peer, start⟩ := reached
      obtain rfl := isFor peer start entered
      have left := leftForResume_of_failed withLibrary rfl entered failed
      have stored := fun index persisted =>
        @mem_storedChunks_of_persistedFile prims outputPath options attempt world index persisted
      refine ⟨fun reuses => ?_, left.reusesChunks rfl stored⟩
      by_contra neither
      obtain ⟨waits, accepted⟩ := not_or.mp neither
      obtain ⟨index, persisted, waiting⟩ : ∃ index ∈ attempt.persistedFiles prims outputPath options
          world, index ∈ waitingMarks (attempt.storedChunks prims outputPath options world) := by
        simpa using waits
      obtain ⟨progress, read, resumed, ordered, members⟩ := left.storedProgress rfl
      have sizes : ∀ entry ∈ peer.manifest.chunks, entry.index ∈ progress.completedChunks →
          ∀ data, (after.disk ⟨root, (descriptorFromManifest prims peer.manifest).shareId⟩).chunks
            (.chunk entry.index) = some data → UInt64.ofNat data.length = entry.encryptedSize := by
        intro entry member listed data found
        by_contra different
        exact accepted ⟨progress, read, entry, member, listed, data, found, different⟩
      obtain ⟨connection, answered, -, -, -, -, connected, negotiated, -⟩ :=
        enterLoop_eq_some.mp entered
      obtain ⟨entry, in_manifest, rfl, -⟩ := left.marked index (stored index persisted)
      refine exists_attempt_requesting withLibrary rfl negotiated resumed ordered sizes
        (List.mem_map_of_mem in_manifest)
        (fun listed => (members _ (stored _ persisted)).mp listed waiting) ?_
      intro path next_options next outputs library resumes same other only
      obtain rfl : other = entry.index := by simpa using only
      exact reuses path next_options next outputs library resumes same _ persisted

end

/-! ## Two attempts at a share of two chunks -/

/-- A download that resumes into a library. -/
def resumingOptions : DownloadFileOptions where
  peerId := "downloader"
  libraryRoot := some ["library"]
  resume := true
  requestedShareId := none
  requestWindow := 1
  authPsk := none

/-- A peer that offers two chunks, sends the first one and closes the connection; the flush interval
may be over when the first chunk is stored. -/
def interruptedAttempt (elapsed : Bool) : Attempt where
  link := offeringLink transparentPrimitives resumingOptions (Vector.replicate 32 1)
    ⟨Vector.replicate 32 1⟩ (oneByteManifest [0, 1])
    { nonce := ⟨Vector.replicate 24 0⟩, data := List.replicate 48 0 } [0, 1]
  windowEvents := [.request none, .receive (some (.raw 0 (oneByteChunk 0))) 0, .persist elapsed,
    .complete, .request none, .receive none 0]
  decryption := { availableParallelism := none, events := fun _ => [] }

/-- An empty library. -/
def emptyWorld : DownloadWorld where
  disk := fun _ => .absent
  outputs := fun _ => none

theorem isFor_interruptedAttempt (elapsed : Bool) (world : DownloadWorld) :
    (interruptedAttempt elapsed).IsFor transparentPrimitives ["sample.bin"] resumingOptions world
      (oneByteManifest [0, 1]) := by
  intro peer start entered
  obtain ⟨connection, answered, -, -, -, -, connected, negotiated, -⟩ :=
    enterLoop_eq_some.mp entered
  exact @offered_of_connectDownloadPeer _ _ (· = oneByteManifest [0, 1]) _ _ _ _
    (offers_offeringLink rfl) connected negotiated

/-- With the flush interval over at the only stored chunk, the next attempt reuses it. -/
theorem reusesChunks_when_flushed :
    ∃ error after, fromPeerWith transparentPrimitives ["sample.bin"] resumingOptions
        (interruptedAttempt true) emptyWorld = some (.error error after) ∧
      ReusesChunks transparentPrimitives ["library"] (oneByteManifest [0, 1])
        ((interruptedAttempt true).persistedFiles transparentPrimitives ["sample.bin"]
          resumingOptions emptyWorld) after.disk := by
  have outcome : (fromPeerWith transparentPrimitives ["sample.bin"] resumingOptions
      (interruptedAttempt true) emptyWorld).any (fun
        | .ok _ _ => false
        | .error _ _ => true) = true := by decide +kernel
  have flushed : ((interruptedAttempt true).persistedFiles transparentPrimitives ["sample.bin"]
      resumingOptions emptyWorld).all (fun index => decide (index ∉ waitingMarks
        ((interruptedAttempt true).storedChunks transparentPrimitives ["sample.bin"]
          resumingOptions emptyWorld))) = true := by decide +kernel
  obtain ⟨result, ran, isError⟩ := (Option.any_eq_true _ _).mp outcome
  cases result with
  | ok => cases isError
  | error error after =>
      refine ⟨error, after, ran,
        (reusesChunks_iff rfl (isFor_interruptedAttempt true emptyWorld) ran).mpr (.inl ?_)⟩
      exact fun index persisted => of_decide_eq_true (List.all_eq_true.mp flushed index persisted)

/-- A single stored chunk is requested again when its mark was still waiting. -/
theorem stored_chunk_requested_again :
    ∃ error after, fromPeerWith transparentPrimitives ["sample.bin"] resumingOptions
        (interruptedAttempt false) emptyWorld = some (.error error after) ∧
      0 ∈ (interruptedAttempt false).persistedFiles transparentPrimitives ["sample.bin"]
        resumingOptions emptyWorld ∧
      0 ∈ (interruptedAttempt false).requestedChunks transparentPrimitives ["sample.bin"]
        resumingOptions after ∧
      ¬ReusesChunks transparentPrimitives ["library"] (oneByteManifest [0, 1])
        ((interruptedAttempt false).persistedFiles transparentPrimitives ["sample.bin"]
          resumingOptions emptyWorld) after.disk := by
  have stored : 0 ∈ (interruptedAttempt false).persistedFiles transparentPrimitives ["sample.bin"]
      resumingOptions emptyWorld := by decide +kernel
  have outcome : (fromPeerWith transparentPrimitives ["sample.bin"] resumingOptions
      (interruptedAttempt false) emptyWorld).any (fun
        | .ok _ _ => false
        | .error _ after => decide (0 ∈ (interruptedAttempt false).requestedChunks
            transparentPrimitives ["sample.bin"] resumingOptions after)) = true := by decide +kernel
  obtain ⟨result, ran, again⟩ := (Option.any_eq_true _ _).mp outcome
  cases result with
  | ok => cases again
  | error error after =>
      have requested := of_decide_eq_true again
      refine ⟨error, after, ran, stored, requested, fun reuses => ?_⟩
      exact reuses ["sample.bin"] resumingOptions (interruptedAttempt false) after.outputs rfl rfl
        (isFor_interruptedAttempt false _) 0 stored requested

end Etle
