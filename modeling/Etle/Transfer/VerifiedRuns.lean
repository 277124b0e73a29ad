import Etle.State.OneByteShare
import Etle.Transfer.ParallelScheduling
import Etle.Transfer.Verified
import Etle.Transfer.WindowMoves

/-!
# Only verified chunks count as downloaded

Both schedulers verify before they rename and rename before they mark.  The windowed loop has one
temporary file at a time.  Parallel workers each have their own, named by index and time: two
workers on one index of a manifest that lists it twice can draw one name, and then the file a worker
renames need not be the one it verified.
-/

namespace Etle

open Std (TreeMap TreeSet)

section

variable {prims : Primitives} {manifest : Manifest} {outputDir : Option PathBuf}

/-- Every index of the handle, of the completed set and of the stored progress is verified. -/
structure VerifiedDownload (prims : Primitives) (manifest : Manifest) (session : LibrarySession)
    (completed : TreeSet UInt32) (library : ActiveDownloadLibraryState) : Prop where
  active : session.active = some library
  state : VerifiedState prims manifest session.disk library
  completed : ∀ index ∈ completed,
    VerifiedIndex prims manifest (session.disk library.paths) index

theorem VerifiedDownload.of_onlyTemp {session : LibrarySession} {completed : TreeSet UInt32}
    {library : ActiveDownloadLibraryState} {temp : TempPath} {after : LibrarySession}
    (verified : VerifiedDownload prims manifest session completed library)
    (only : OnlyTemp temp session.disk after.disk) (active : after.active = session.active) :
    VerifiedDownload prims manifest after completed library :=
  ⟨active.trans verified.active, verified.state.of_onlyTemp only,
    fun index member => (verified.completed index member).of_onlyTemp only⟩

theorem VerifiedDownload.of_stored {session after : LibrarySession} {completed : TreeSet UInt32}
    {library : ActiveDownloadLibraryState} {entry : ChunkMeta} {index : UInt32} {temp : TempPath}
    (verified : VerifiedDownload prims manifest session completed library)
    (stored : StoredChunk prims library entry index outputDir temp session after)
    (member : entry ∈ manifest.chunks) (same : entry.index = index) :
    ∃ next, next.paths = library.paths ∧
      VerifiedDownload prims manifest after completed next ∧
      VerifiedIndex prims manifest (after.disk next.paths) index ∧
      ∀ other, VerifiedIndex prims manifest (session.disk library.paths) other →
        VerifiedIndex prims manifest (after.disk next.paths) other := by
  obtain ⟨next, active, paths, state, here, others⟩ :=
    stored.verified verified.state member same
  refine ⟨next, paths, ⟨active, state, fun other found => ?_⟩, ?_, ?_⟩
  · rw [paths]
    exact others other (verified.completed other found)
  · rwa [paths]
  · rwa [paths]

/-! ## The windowed loop -/

/-- What the windowed loop knows between two steps. -/
structure WindowVerified (prims : Primitives) (manifest : Manifest) (state : WindowedDownload)
    (library : ActiveDownloadLibraryState) : Prop where
  download : VerifiedDownload prims manifest state.session state.loop.completed library
  todo : ∀ entry ∈ state.loop.todo, entry ∈ manifest.chunks
  inFlight : ∀ index entry, state.loop.inFlight[index]? = some entry →
    entry ∈ manifest.chunks ∧ entry.index = index
  received : ∀ frame temp, state.phase = .received frame temp →
    ∃ path, temp = some path ∧ path.paths = library.paths ∧
      Arrived prims state.session.disk path frame
  persisted : ∀ index chunk, state.phase = .persisted index chunk →
    VerifiedIndex prims manifest (state.session.disk library.paths) index

variable {peerAvailable : TreeSet UInt32} {requestWindow : Nat}

theorem windowVerified_of_step (state : WindowedDownload) (event : WindowEvent)
    (next : WindowedDownload)
    (verified : ∃ library, WindowVerified prims manifest state library)
    (step : (downloadMissingChunksWindowed prims outputDir peerAvailable requestWindow).step state
      event = some next) : ∃ library, WindowVerified prims manifest next library := by
  obtain ⟨library, verified⟩ := verified
  cases windowMove_of_step step with
  | @skip failure entry rest running room here needless =>
      refine ⟨library, verified.download, ?_, verified.inFlight, by simp [running],
        by simp [running]⟩
      intro other member
      exact verified.todo other (by rw [here]; exact List.mem_cons_of_mem _ member)
  | @send entry rest running room here missing has =>
      refine ⟨library, verified.download, ?_, ?_, by simp [running], by simp [running]⟩
      · intro other member
        exact verified.todo other (by rw [here]; exact List.mem_cons_of_mem _ member)
      · intro index other flying
        simp only [TreeMap.getElem?_insert] at flying
        split at flying
        · rename_i equal
          obtain rfl := Option.some.inj flying
          exact ⟨verified.todo entry (by rw [here]; exact List.mem_cons_self), by simpa using equal⟩
        · exact verified.inFlight index other flying
  | sendFails running failed =>
      exact ⟨library, verified.download, verified.todo, verified.inFlight, by simp, by simp⟩
  | @receive reply stamp handle frame rest session running full waiting active arrived =>
      obtain ⟨same_active, only, landed⟩ := receiveChunkToFile_ok arrived
      obtain rfl : handle = library := by
        simpa [verified.download.active] using active.symm
      refine ⟨handle, verified.download.of_onlyTemp only same_active, verified.todo,
        verified.inFlight, ?_, by simp⟩
      intro other temp phase
      obtain ⟨rfl, rfl⟩ : frame = other ∧ _ = temp := by simpa using phase
      exact ⟨_, rfl, rfl, landed⟩
  | receiveFails running full waiting active failed =>
      obtain ⟨same_active, only⟩ := receiveChunkToFile_error failed
      exact ⟨library, verified.download.of_onlyTemp only same_active, verified.todo,
        verified.inFlight, by simp, by simp⟩
  | receiveMessage running full waiting active arrived =>
      simp [verified.download.active] at active
  | receiveMessageFails running full waiting active failed =>
      simp [verified.download.active] at active
  | @persist elapsed frame temp index chunk session received persisted =>
      obtain ⟨path, rfl, same, arrived⟩ := verified.received frame temp received
      obtain ⟨found, content, entry, after, outcome, flying, stored⟩ | ⟨error, disk, outcome, -⟩ :=
        persistReply_spec outputDir elapsed verified.download.active
          verified.download.state.owned same state.loop.inFlight arrived
      · obtain ⟨⟨rfl, rfl⟩, rfl⟩ : (found = index ∧ content = chunk) ∧ after = session := by
          simpa using outcome.symm.trans persisted
        obtain ⟨member, same_index⟩ := verified.inFlight found entry flying
        obtain ⟨handle, paths, download, here, -⟩ :=
          verified.download.of_stored stored member same_index
        refine ⟨handle, download, verified.todo, ?_, by simp, ?_⟩
        · intro other_index other still
          simp only [TreeMap.getElem?_erase] at still
          split at still
          · cases still
          · exact verified.inFlight other_index other still
        · intro other_index other phase
          obtain ⟨rfl, -⟩ : found = other_index ∧ content = other := by simpa using phase
          exact here
      · simp [outcome] at persisted
  | @persistFails elapsed frame temp error session received failed =>
      obtain ⟨path, rfl, same, arrived⟩ := verified.received frame temp received
      obtain ⟨found, content, entry, after, outcome, -⟩ | ⟨cause, disk, outcome, only⟩ :=
        persistReply_spec outputDir elapsed verified.download.active
          verified.download.state.owned same state.loop.inFlight arrived
      · simp [outcome] at failed
      · obtain ⟨-, rfl⟩ : cause = error ∧ _ = session := by
          simpa using outcome.symm.trans failed
        exact ⟨library, verified.download.of_onlyTemp only rfl, verified.todo,
          verified.inFlight, by simp, by simp⟩
  | @complete index chunk window since chunks persisted kept positive =>
      refine ⟨library, ⟨verified.download.active, verified.download.state, ?_⟩, verified.todo,
        verified.inFlight, by simp, by simp⟩
      intro other member
      obtain equal | old := TreeSet.mem_insert.mp member
      · obtain rfl : index = other := by simpa using equal
        exact verified.persisted index chunk persisted
      · exact verified.download.completed other old
  | finish running full empty =>
      exact ⟨library, verified.download, verified.todo, verified.inFlight, by simp, by simp⟩

theorem windowVerified_of_reaches {before session : LibrarySession}
    {handle : ActiveDownloadLibraryState} {completed : TreeSet UInt32}
    {chunks : TreeMap UInt32 EncryptedChunk} (active : before.active = some handle)
    (loaded : (loadResumableChunkIndexes prims manifest outputDir).run before =
      .ok completed session) {state : WindowedDownload}
    (reach : (downloadMissingChunksWindowed prims outputDir peerAvailable requestWindow).Reaches
      (.initial manifest completed chunks session requestWindow) state) :
    ∃ library, WindowVerified prims manifest state library := by
  obtain ⟨library, after_active, paths, verified, done⟩ :=
    verified_of_loadResumableChunkIndexes active loaded
  refine Machine.invariant_of_reaches windowVerified_of_step ⟨library, ⟨after_active, verified,
    fun index member => ?_⟩, fun entry member => member, ?_, ?_, ?_⟩ reach
  · rw [paths]
    exact done index member
  · intro index entry flying
    simp [WindowedDownload.initial, WindowLoop.initial] at flying
  · intro frame temp phase
    simp [WindowedDownload.initial] at phase
  · intro index chunk phase
    simp [WindowedDownload.initial] at phase

/-! ## Parallel workers -/

/-- The entry a worker is busy with. -/
def DownloadWorker.entry : DownloadWorker → Option ChunkMeta
  | .requesting entry | .receiving entry _ | .received entry _ _ => some entry
  | _ => none

/-- What holds of one worker's position. -/
structure PositionVerified (prims : Primitives) (manifest : Manifest) (disk : Disk)
    (paths : LibraryPaths) (position : DownloadWorker) : Prop where
  entry : ∀ entry, position.entry = some entry → entry ∈ manifest.chunks
  temp : ∀ temp, position.temp = some temp → temp.paths = paths
  received : ∀ entry temp frame, position = .received entry temp frame →
    Arrived prims disk temp frame
  completing : ∀ index, position = .completing index →
    VerifiedIndex prims manifest (disk paths) index

/-- A position without entry and chunk has nothing to verify. -/
theorem PositionVerified.of_idle {disk : Disk} {paths : LibraryPaths} {position : DownloadWorker}
    (no_entry : position.entry = none) (no_temp : position.temp = none)
    (not_completing : ∀ index, position ≠ .completing index) :
    PositionVerified prims manifest disk paths position := by
  refine ⟨by simp [no_entry], by simp [no_temp], ?_, fun index same => ?_⟩
  · rintro entry temp frame rfl
    simp [DownloadWorker.temp] at no_temp
  · exact absurd same (not_completing index)

/-- Another worker's step keeps a position verified when it keeps the verified indices and the
position's own temporary file. -/
theorem PositionVerified.transfer {before after : Disk} {paths : LibraryPaths}
    {position : DownloadWorker} (verified : PositionVerified prims manifest before paths position)
    (indices : ∀ index, VerifiedIndex prims manifest (before paths) index →
      VerifiedIndex prims manifest (after paths) index)
    (files : ∀ temp, position.temp = some temp →
      (after paths).chunks (.part temp.index temp.suffix) =
        (before paths).chunks (.part temp.index temp.suffix)) :
    PositionVerified prims manifest after paths position := by
  refine ⟨verified.entry, verified.temp, ?_, fun index same => ?_⟩
  · rintro entry temp frame rfl
    have here : temp.paths = paths := verified.temp temp rfl
    refine (verified.received entry temp frame rfl).of_files ?_
    rw [here]
    exact files temp rfl
  · exact indices index (verified.completing index same)

variable {peerCount : Nat} {available : Fin peerCount → TreeSet UInt32}

/-- What the workers know between two steps. -/
structure WorkersVerified (prims : Primitives) (manifest : Manifest)
    (state : ParallelDownload peerCount) (library : ActiveDownloadLibraryState) : Prop where
  download : VerifiedDownload prims manifest state.session state.completed library
  positions : ∀ worker,
    PositionVerified prims manifest state.session.disk library.paths (state.workers worker)
  separate : ∀ first second temp, (state.workers first).temp = some temp →
    (state.workers second).temp = some temp → first = second

/-- A step of one worker, assembled from what it does to the shared state, to the other workers and
to the worker itself. -/
theorem WorkersVerified.step {state : ParallelDownload peerCount}
    {library handle : ActiveDownloadLibraryState} {queue : List UInt32}
    {completed : TreeSet UInt32} {session : LibrarySession} {worker : Fin peerCount}
    {position : DownloadWorker} (verified : WorkersVerified prims manifest state library)
    (download : VerifiedDownload prims manifest session completed handle)
    (others : ∀ other, other ≠ worker →
      PositionVerified prims manifest session.disk handle.paths (state.workers other))
    (here : PositionVerified prims manifest session.disk handle.paths position)
    (fresh : ∀ temp, position.temp = some temp → ∀ other, other ≠ worker →
      (state.workers other).temp ≠ some temp) :
    WorkersVerified prims manifest
      (ParallelDownload.move { queue, completed, session, workers := state.workers } worker
        position) handle := by
  refine ⟨download, fun other => ?_, fun first second temp first_temp second_temp => ?_⟩
  · by_cases same : other = worker
    · subst same
      simpa [ParallelDownload.move] using here
    · simpa [ParallelDownload.move, same] using others other same
  · simp only [ParallelDownload.move] at first_temp second_temp
    by_cases first_here : first = worker
    · by_cases second_here : second = worker
      · rw [first_here, second_here]
      · subst first_here
        simp only [Function.update_self] at first_temp
        rw [Function.update_of_ne second_here] at second_temp
        exact absurd second_temp (fresh temp first_temp second second_here)
    · by_cases second_here : second = worker
      · subst second_here
        simp only [Function.update_self] at second_temp
        rw [Function.update_of_ne first_here] at first_temp
        exact absurd first_temp (fresh temp second_temp first first_here)
      · rw [Function.update_of_ne first_here] at first_temp
        rw [Function.update_of_ne second_here] at second_temp
        exact verified.separate first second temp first_temp second_temp

/-- The temporary file of a new request is not in use by another worker. -/
def FreshTemp (state : ParallelDownload peerCount) : ParallelEvent peerCount → Prop
  | .request worker _ stagingTimestamp =>
      ∀ entry library, state.workers worker = .requesting entry →
        state.session.active = some library → ∀ other, (state.workers other).temp ≠
          some { paths := library.paths, index := entry.index, suffix := stagingTimestamp }
  | .start _ _ | .lock _ | .pop _ | .examine _ | .receive _ _ | .store _ _ | .complete _
  | .release _ | .finish _ => True

/-- A step that leaves the library alone and gives its worker nothing new to verify. -/
theorem WorkersVerified.quiet {state : ParallelDownload peerCount}
    {library : ActiveDownloadLibraryState} (queue : List UInt32) {worker : Fin peerCount}
    {position : DownloadWorker} (verified : WorkersVerified prims manifest state library)
    (here : PositionVerified prims manifest state.session.disk library.paths position)
    (fresh : ∀ temp, position.temp = some temp → ∀ other, other ≠ worker →
      (state.workers other).temp ≠ some temp) :
    WorkersVerified prims manifest ({ state with queue }.move worker position) library :=
  verified.step verified.download (fun other _ => verified.positions other) here fresh

theorem eq_of_same_part {first second : TempPath} (paths : first.paths = second.paths)
    (same : ChunkFile.part first.index first.suffix = .part second.index second.suffix) :
    first = second := by
  obtain ⟨firstPaths, firstIndex, firstSuffix⟩ := first
  simp_all

/-- A step that changes only the temporary file of its own worker. -/
theorem WorkersVerified.own_temp {state : ParallelDownload peerCount}
    {library : ActiveDownloadLibraryState} {worker : Fin peerCount} {temp : TempPath}
    {session : LibrarySession} {position : DownloadWorker}
    (verified : WorkersVerified prims manifest state library)
    (mine : (state.workers worker).temp = some temp)
    (only : OnlyTemp temp state.session.disk session.disk)
    (active : session.active = state.session.active)
    (here : PositionVerified prims manifest session.disk library.paths position)
    (kept : ∀ other, position.temp = some other → other = temp) :
    WorkersVerified prims manifest ({ state with session }.move worker position) library := by
  have paths : temp.paths = library.paths := (verified.positions worker).temp temp mine
  refine verified.step (verified.download.of_onlyTemp only active) ?_ here ?_
  · intro other different
    refine (verified.positions other).transfer (fun index => .of_onlyTemp only) ?_
    intro other_temp theirs
    rw [← paths]
    apply only.files
    intro same
    have other_paths := (verified.positions other).temp other_temp theirs
    obtain rfl : other_temp = temp := eq_of_same_part (other_paths.trans paths.symm) same
    exact different (verified.separate other worker _ theirs mine)
  · intro other_temp position_temp other different theirs
    obtain rfl := kept other_temp position_temp
    exact different (verified.separate other worker _ theirs mine)

/-- Storing an arrived chunk keeps every worker verified. -/
theorem workersVerified_of_store {state : ParallelDownload peerCount}
    {library : ActiveDownloadLibraryState} {worker : Fin peerCount} {entry : ChunkMeta}
    {temp : TempPath} {frame : ReceivedChunkFrame} {elapsed : Bool} {length : Nat}
    {session : LibrarySession} (verified : WorkersVerified prims manifest state library)
    (received : state.workers worker = .received entry temp frame)
    (stored : (storeReceivedChunk prims outputDir entry temp elapsed frame).run state.session =
      .ok length session) :
    ∃ handle, WorkersVerified prims manifest
      ({ state with session }.move worker (.completing entry.index)) handle := by
  have mine : (state.workers worker).temp = some temp := by rw [received]; rfl
  have own_paths := (verified.positions worker).temp temp mine
  have arrived := (verified.positions worker).received entry temp frame received
  obtain ⟨count, after, outcome, chunk⟩ | ⟨cause, disk, outcome, -⟩ :=
    storeReceivedChunk_spec outputDir elapsed verified.download.active
      verified.download.state.owned own_paths entry arrived
  swap
  · simp [outcome] at stored
  obtain ⟨-, rfl⟩ : count = length ∧ after = session := by
    simpa using outcome.symm.trans stored
  have member := (verified.positions worker).entry entry (by rw [received]; rfl)
  obtain ⟨handle, paths, download, here, others⟩ := verified.download.of_stored chunk member rfl
  obtain ⟨files, data, recorded, -, -, kept⟩ := chunk
  refine ⟨handle, verified.step download ?_ ⟨?_, ?_, ?_, ?_⟩ ?_⟩
  · intro other different
    rw [paths] at others ⊢
    refine (verified.positions other).transfer others ?_
    intro other_temp theirs
    rw [recorded.files]
    refine kept _ (by simp) ?_
    intro same
    have other_paths := (verified.positions other).temp other_temp theirs
    obtain rfl : other_temp = temp := eq_of_same_part (other_paths.trans own_paths.symm) same
    exact different (verified.separate other worker _ theirs mine)
  · rintro other ⟨⟩
  · rintro other ⟨⟩
  · rintro other other_temp other_frame ⟨⟩
  · rintro index ⟨⟩
    exact here
  · rintro other ⟨⟩

theorem workersVerified_of_step (state : ParallelDownload peerCount)
    (event : ParallelEvent peerCount) (next : ParallelDownload peerCount)
    (verified : ∃ library, WorkersVerified prims manifest state library)
    (fresh : FreshTemp state event)
    (step : (parallelDownloadWorkers prims manifest outputDir available).step state event =
      some next) : ∃ library, WorkersVerified prims manifest next library := by
  obtain ⟨library, verified⟩ := verified
  cases parallelMove_of_step step with
  | start | startFails | lock | pop | giveUp | drop | unknown | rotate | requestFails | release
  | finish =>
      refine ⟨library, verified.quiet _ (.of_idle rfl rfl ?_) ?_⟩
      · rintro index ⟨⟩
      · rintro temp ⟨⟩
  | @take worker attempts entry examining missing has member =>
      refine ⟨library, verified.quiet _ ⟨?_, ?_, ?_, ?_⟩ ?_⟩
      · rintro other ⟨⟩
        exact member
      · rintro temp ⟨⟩
      · rintro other temp frame ⟨⟩
      · rintro index ⟨⟩
      · rintro temp ⟨⟩
  | @request worker stamp entry handle requesting active =>
      obtain rfl : handle = library := by simpa [verified.download.active] using active.symm
      refine ⟨handle, verified.quiet _ ⟨?_, ?_, ?_, ?_⟩ ?_⟩
      · rintro other ⟨⟩
        exact (verified.positions worker).entry entry (by rw [requesting]; rfl)
      · rintro temp ⟨⟩
        rfl
      · rintro other temp frame ⟨⟩
      · rintro index ⟨⟩
      · rintro temp ⟨⟩ other _
        exact fresh entry handle requesting active other
  | @receive worker reply entry temp frame rest session receiving arrived =>
      obtain ⟨same_active, only, landed⟩ := receiveChunkToFile_ok arrived
      have mine : (state.workers worker).temp = some temp := by rw [receiving]; rfl
      refine ⟨library, verified.own_temp mine only same_active ⟨?_, ?_, ?_, ?_⟩ ?_⟩
      · rintro other ⟨⟩
        exact (verified.positions worker).entry entry (by rw [receiving]; rfl)
      · rintro other ⟨⟩
        exact (verified.positions worker).temp temp mine
      · rintro other other_temp other_frame ⟨⟩
        exact landed
      · rintro index ⟨⟩
      · rintro other ⟨⟩
        rfl
  | @receiveFails worker reply entry temp error session receiving failed =>
      obtain ⟨same_active, only⟩ := receiveChunkToFile_error failed
      have mine : (state.workers worker).temp = some temp := by rw [receiving]; rfl
      refine ⟨library, verified.own_temp mine only same_active (.of_idle rfl rfl ?_) ?_⟩
      · rintro index ⟨⟩
      · rintro other ⟨⟩
  | @store worker elapsed entry temp frame length session received stored =>
      exact workersVerified_of_store verified received stored
  | @storeFails worker elapsed entry temp frame error session received failed =>
      have mine : (state.workers worker).temp = some temp := by rw [received]; rfl
      have arrived := (verified.positions worker).received entry temp frame received
      obtain ⟨length, after, outcome, -⟩ | ⟨cause, disk, outcome, only⟩ :=
        storeReceivedChunk_spec outputDir elapsed verified.download.active
          verified.download.state.owned ((verified.positions worker).temp temp mine) entry arrived
      · simp [outcome] at failed
      · obtain ⟨-, rfl⟩ : cause = error ∧ _ = session := by simpa using outcome.symm.trans failed
        refine ⟨library, verified.own_temp mine only rfl (.of_idle rfl rfl ?_) ?_⟩
        · rintro index ⟨⟩
        · rintro other ⟨⟩
  | @complete worker index completing =>
      have done := (verified.positions worker).completing index completing
      refine ⟨library, verified.step ⟨verified.download.active, verified.download.state, ?_⟩
        (fun other _ => verified.positions other) (.of_idle rfl rfl ?_) ?_⟩
      · intro other member
        obtain equal | old := TreeSet.mem_insert.mp member
        · obtain rfl : index = other := by simpa using equal
          exact done
        · exact verified.download.completed other old
      · rintro other ⟨⟩
      · rintro temp ⟨⟩

theorem workersVerified_of_run {before session : LibrarySession}
    {handle : ActiveDownloadLibraryState} {completed : TreeSet UInt32}
    (active : before.active = some handle)
    (loaded : (loadResumableChunkIndexes prims manifest outputDir).run before =
      .ok completed session) {events : List (ParallelEvent peerCount)}
    {state : ParallelDownload peerCount}
    (run : (parallelDownloadWorkers prims manifest outputDir available).run
      (.initial manifest completed session peerCount) events = some state)
    (fresh : (parallelDownloadWorkers prims manifest outputDir available).Obeys FreshTemp
      (.initial manifest completed session peerCount) events) :
    ∃ library, WorkersVerified prims manifest state library := by
  obtain ⟨library, after_active, paths, verified, done⟩ :=
    verified_of_loadResumableChunkIndexes active loaded
  refine Machine.invariant_of_obeys workersVerified_of_step ⟨library, ⟨after_active, verified,
    fun index member => ?_⟩, fun worker => ?_, ?_⟩ fresh run
  · rw [paths]
    exact done index member
  · exact .of_idle rfl rfl (by rintro index ⟨⟩)
  · rintro first second temp ⟨⟩

/-- The index in a worker's hand is the one its temporary file is named after. -/
def TempsNamed (state : ParallelDownload peerCount) : Prop :=
  ∀ worker temp, (state.workers worker).temp = some temp →
    (state.workers worker).inHand = some temp.index

theorem TempsNamed.move {state : ParallelDownload peerCount} (named : TempsNamed state)
    (queue : List UInt32) (completed : TreeSet UInt32) (session : LibrarySession)
    (worker : Fin peerCount) {position : DownloadWorker}
    (here : ∀ temp, position.temp = some temp → position.inHand = some temp.index) :
    TempsNamed (ParallelDownload.move { queue, completed, session, workers := state.workers } worker
      position) := by
  intro other temp found
  by_cases same : other = worker
  · subst same
    simpa [ParallelDownload.move] using here temp (by simpa [ParallelDownload.move] using found)
  · simpa [ParallelDownload.move, same] using
      named other temp (by simpa [ParallelDownload.move, same] using found)

theorem tempsNamed_of_step {state next : ParallelDownload peerCount}
    {event : ParallelEvent peerCount} (named : TempsNamed state)
    (step : (parallelDownloadWorkers prims manifest outputDir available).step state event =
      some next) : TempsNamed next := by
  cases parallelMove_of_step step with
  | start | startFails | lock | pop | giveUp | drop | take | unknown | rotate | requestFails
  | receiveFails | store | storeFails | complete | release | finish =>
      exact named.move _ _ _ _ (by rintro temp ⟨⟩)
  | request => exact named.move _ _ _ _ (by rintro temp ⟨⟩; rfl)
  | @receive worker reply entry temp frame rest session receiving arrived =>
      refine named.move _ _ _ _ ?_
      rintro other ⟨⟩
      simpa [receiving, DownloadWorker.inHand] using named worker temp (by rw [receiving]; rfl)

/-- With distinct indices two workers never have one temporary file, whatever the clock says. -/
theorem obeys_freshTemp_of_distinct (distinct : manifest.indices.Nodup)
    {completed : TreeSet UInt32} (resumed : ∀ index ∈ completed, index ∈ manifest.indices)
    (session : LibrarySession) (events : List (ParallelEvent peerCount)) :
    (parallelDownloadWorkers prims manifest outputDir available).Obeys FreshTemp
      (.initial manifest completed session peerCount) events := by
  refine @Machine.obeys_of_invariant _ _ _ FreshTemp
    (fun state => (ParallelDownload.initial manifest completed session peerCount).Conserves
      manifest state ∧ TempsNamed state)
    (fun state event next holds step => ⟨conserves_of_step state event next holds.1 step,
      tempsNamed_of_step holds.2 step⟩) ?_ _
    ⟨conserves_initial distinct completed resumed session, by rintro worker temp ⟨⟩⟩ events
  rintro state event ⟨conserves, named⟩
  cases event with
  | start | lock | pop | examine | receive | store | complete | release | finish => trivial
  | request worker failure stamp =>
      intro entry library requesting active other theirs
      have mine : (state.workers worker).inHand = some entry.index := by rw [requesting]; rfl
      have other_hand := named other _ theirs
      have place := one_le_places_of_hand mine
      have once := conserves.places entry.index ▸ conserves.single entry.index
      obtain ⟨-, none_holds, -⟩ | ⟨-, ⟨holder, -, unique⟩, -⟩ | ⟨-, none_holds, -⟩ :=
        inOnePlace_of_places_eq_one (show state.places entry.index = 1 by omega)
      · exact none_holds worker mine
      · obtain rfl : other = worker :=
          (unique other other_hand).trans (unique worker mine).symm
        simp [requesting, DownloadWorker.temp] at theirs
      · exact none_holds worker mine

/-! ## The records of a running download -/

/-- Each index of the handle, of the completed set and of the progress file is one of the manifest
whose chunk file holds bytes with the hash of an entry of that index. -/
def RecordsVerified (prims : Primitives) (manifest : Manifest) (session : LibrarySession)
    (completed : TreeSet UInt32) : Prop :=
  ∃ library, session.active = some library ∧
    (∀ index ∈ library.progress.completedChunks,
      VerifiedIndex prims manifest (session.disk library.paths) index) ∧
    (∀ index ∈ completed, VerifiedIndex prims manifest (session.disk library.paths) index) ∧
    ∀ progress, (session.disk library.paths).progress = .value progress →
      ∀ index ∈ progress.completedChunks,
        VerifiedIndex prims manifest (session.disk library.paths) index

theorem VerifiedDownload.records {session : LibrarySession} {completed : TreeSet UInt32}
    {library : ActiveDownloadLibraryState}
    (verified : VerifiedDownload prims manifest session completed library) :
    RecordsVerified prims manifest session completed :=
  ⟨library, verified.active, verified.state.marked, verified.completed, verified.state.stored⟩

/-- The last writes of an attempt keep the records verified. -/
theorem VerifiedDownload.records_of_markComplete {session after : LibrarySession}
    {completed : TreeSet UInt32} {library : ActiveDownloadLibraryState}
    (verified : VerifiedDownload prims manifest session completed library)
    (marked : (markDownloadLibraryComplete outputDir).run session = .ok () after) :
    RecordsVerified prims manifest after completed := by
  obtain ⟨final, outcome, spec⟩ :=
    markDownloadLibraryComplete_spec verified.active verified.state.owned outputDir
  obtain rfl : final = after := by simpa using outcome.symm.trans marked
  have same (index : UInt32) (known : VerifiedIndex prims manifest (session.disk library.paths)
      index) : VerifiedIndex prims manifest (final.disk library.paths) index := by
    simpa only [VerifiedIndex, spec.files] using known
  refine ⟨_, spec.active, fun index member => same index (verified.state.marked index member),
    fun index member => same index (verified.completed index member), ?_⟩
  intro progress stored index member
  simp only [spec.progress] at stored
  split at stored
  · obtain rfl : library.progress = progress := by simpa using stored
    exact same index (verified.state.marked index member)
  · exact same index (verified.state.stored progress stored index member)

/-- After resuming, whatever was on disk: the records stay verified in every state of the windowed
loop, and in every state of the parallel workers as long as no worker is given a temporary file
that another worker is using, which a manifest with distinct indices rules out; and so they are
after the last writes of the attempt. -/
theorem downloadRecords_verified_while_temps_differ (prims : Primitives) (manifest : Manifest)
    (outputDir : Option PathBuf) (before session : LibrarySession)
    (handle : ActiveDownloadLibraryState) (completed : TreeSet UInt32)
    (active : before.active = some handle)
    (loaded : (loadResumableChunkIndexes prims manifest outputDir).run before =
      .ok completed session) :
    (∀ peerAvailable chunks requestWindow state,
      (downloadMissingChunksWindowed prims outputDir peerAvailable requestWindow).Reaches
          (.initial manifest completed chunks session requestWindow) state →
        RecordsVerified prims manifest state.session state.loop.completed ∧
        ∀ after, (markDownloadLibraryComplete outputDir).run state.session = .ok () after →
          RecordsVerified prims manifest after state.loop.completed) ∧
    (∀ peerCount (available : Fin peerCount → TreeSet UInt32) events state,
      (parallelDownloadWorkers prims manifest outputDir available).run
          (.initial manifest completed session peerCount) events = some state →
        (parallelDownloadWorkers prims manifest outputDir available).Obeys FreshTemp
            (.initial manifest completed session peerCount) events →
          RecordsVerified prims manifest state.session state.completed ∧
          ∀ after, (markDownloadLibraryComplete outputDir).run state.session = .ok () after →
            RecordsVerified prims manifest after state.completed) ∧
    (manifest.indices.Nodup →
      ∀ peerCount (available : Fin peerCount → TreeSet UInt32) events,
        (parallelDownloadWorkers prims manifest outputDir available).Obeys FreshTemp
          (.initial manifest completed session peerCount) events) := by
  refine ⟨?_, ?_, ?_⟩
  · intro peerAvailable chunks requestWindow state reach
    obtain ⟨library, verified⟩ := windowVerified_of_reaches active loaded reach
    exact ⟨verified.download.records,
      fun after marked => verified.download.records_of_markComplete marked⟩
  · intro peerCount available events state run fresh
    obtain ⟨library, verified⟩ := workersVerified_of_run active loaded run fresh
    exact ⟨verified.download.records,
      fun after marked => verified.download.records_of_markComplete marked⟩
  · intro distinct peerCount available events
    exact obeys_freshTemp_of_distinct distinct
      (fun index member => mem_indices_of_loadResumableChunkIndexes loaded member) session events

end

/-- A windowed download of one chunk, up to its record in the handle. -/
theorem downloadRecords_verified_for_one_chunk :
    (∃ handle, freshSession.active = some handle) ∧
    ∃ completed session state,
      (loadResumableChunkIndexes transparentPrimitives (oneByteManifest [0]) none).run
          freshSession = .ok completed session ∧
      (downloadMissingChunksWindowed transparentPrimitives none
          ((∅ : TreeSet UInt32).insert 0) 4).Reaches
        (.initial (oneByteManifest [0]) completed ∅ session 4) state ∧
      state.session.active.any (fun library => library.progress.hasChunk 0) = true ∧
      RecordsVerified transparentPrimitives (oneByteManifest [0]) state.session
        state.loop.completed := by
  refine ⟨⟨_, rfl⟩, _, _, _, rfl, ⟨[.request none,
    .receive (some (.raw 0 (oneByteChunk 0))) 7, .persist false], rfl⟩, by decide, ?_⟩
  exact ((downloadRecords_verified_while_temps_differ transparentPrimitives (oneByteManifest [0])
    none freshSession _ _ _ rfl rfl).1 ((∅ : TreeSet UInt32).insert 0) ∅ 4 _
    ⟨[.request none, .receive (some (.raw 0 (oneByteChunk 0))) 7, .persist false], rfl⟩).1

/-! ## Two workers with one temporary file -/

/-- Bytes that are not the bytes of chunk 0. -/
def wrongChunk : Bytes := oneByteChunk 9

/-- The worker whose reply is stored, and the worker whose reply lands in its file. -/
abbrev earlyWorker : Fin 2 := ⟨0, Nat.two_pos⟩
abbrev lateWorker : Fin 2 := ⟨1, Nat.one_lt_two⟩

/-- Two workers on one index, with a clock that always reads zero: the second reply lands in the
file of the first between its verification and its renaming. -/
def sharedTemp : List (ParallelEvent 2) :=
  [.start earlyWorker none, .start lateWorker none, .lock earlyWorker, .pop earlyWorker,
    .examine earlyWorker, .lock lateWorker, .pop lateWorker, .examine lateWorker,
    .request earlyWorker none 0, .request lateWorker none 0,
    .receive earlyWorker (some (.raw 0 (oneByteChunk 0))),
    .receive lateWorker (some (.raw 0 wrongChunk)), .store earlyWorker false]

/-- A manifest that lists index 0 twice: the first worker marks index 0 while its chunk file holds
the unverified bytes of the second reply. -/
theorem downloadRecords_unverified_with_shared_temp :
    ∃ completed session state,
      (loadResumableChunkIndexes transparentPrimitives (oneByteManifest [0, 0]) none).run
          freshSession = .ok completed session ∧
      (parallelDownloadWorkers transparentPrimitives (oneByteManifest [0, 0]) none
          (fun _ : Fin 2 => (∅ : TreeSet UInt32).insert 0)).run
        (.initial (oneByteManifest [0, 0]) completed session 2) sharedTemp = some state ∧
      ¬ RecordsVerified transparentPrimitives (oneByteManifest [0, 0]) state.session
        state.completed := by
  refine ⟨_, _, _, rfl, rfl, ?_⟩
  rintro ⟨library, active, marked, -⟩
  obtain rfl := Option.some.inj active
  obtain ⟨entry, member, -, data, stored, hash⟩ := marked 0 (by decide)
  obtain rfl : wrongChunk = data := Option.some.inj stored
  obtain rfl : entry = oneByteEntry 0 := by simpa [oneByteManifest] using member
  exact absurd hash (by decide)

end Etle
