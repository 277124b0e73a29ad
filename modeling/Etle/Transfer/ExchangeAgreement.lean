import Etle.Transfer.Exchange

/-!
# A windowed client and a serving peer agree

Every request in flight is in exactly one place: on its way to the server, answered and on its way
back, or in the client's hand.  This is stated here as an invariant and proved for the client's
steps.
-/

namespace Etle

open Std (TreeMap TreeSet)

/-- The indices requested by a list of messages. -/
def requestedIndices (messages : List WireMessage) : List UInt32 :=
  messages.filterMap fun
    | .requestChunk index => some index
    | _ => none

/-- The indices of the raw chunks among a list of frames. -/
def repliedIndices (frames : List Frame) : List UInt32 :=
  frames.filterMap fun
    | .raw index _ => some index
    | _ => none

/-- The index of the reply that has been received and not yet stored. -/
def WindowPhase.inHand : WindowPhase → List UInt32
  | .received (.rawChunkFile index _ _) _ => [index]
  | .received (.message (.chunk index _)) _ => [index]
  | _ => []

/-- Where the requests in flight are. -/
def Exchange.outstanding (state : Exchange) : List UInt32 :=
  state.client.phase.inHand ++ repliedIndices state.toClient ++ requestedIndices state.toServer

/-- A frame that carries the bytes of an entry. -/
def AnswersEntry (prims : Primitives) (manifest : Manifest) (frame : Frame) : Prop :=
  ∃ entry ∈ manifest.chunks, ∃ data, frame = .raw entry.index data ∧
    hashChunk prims data = entry.blake3Hash

/-- What the client's place in its loop says about the rest of its state: a reply in hand is the
right one, and the loop only ends with success and with nothing left to do. -/
def PhaseAgrees (prims : Primitives) (manifest : Manifest) (available : TreeSet UInt32)
    (client : WindowedDownload) : Prop :=
  match client.phase with
  | .running => True
  | .received (.rawChunkFile index dataLen blake3Hash) (some temp) =>
      ∃ library, client.session.active = some library ∧ temp.paths = library.paths ∧
        Arrived prims client.session.disk temp (.rawChunkFile index dataLen blake3Hash) ∧
        ∃ entry ∈ manifest.chunks, entry.index = index ∧ blake3Hash = entry.blake3Hash.bytes
  | .received (.message (.chunk index data)) none =>
      client.session.active = none ∧
        ∃ entry ∈ manifest.chunks, entry.index = index ∧
          hashChunk prims data = entry.blake3Hash
  | .received _ _ => False
  | .persisted index _ => index ∈ available
  | .ended (.ok ()) => client.loop.todo = [] ∧ client.loop.inFlight.isEmpty = true
  | .ended (.error _) => False

/-- The client's plan: what it still has to request, what it has requested and what it has. -/
structure ClientPlan (prims : Primitives) (manifest : Manifest) (available : TreeSet UInt32)
    (initial : TreeSet UInt32) (client : WindowedDownload) : Prop where
  window : 0 < client.loop.activeRequestWindow
  owned : ∀ library, client.session.active = some library → library.Owned
  /-- Every entry that has been passed and that the server has is on its way or here. -/
  passed : ∃ finished, manifest.chunks = finished ++ client.loop.todo ∧
    ∀ entry ∈ finished, entry.index ∈ available →
      entry.index ∈ client.loop.completed ∨ entry.index ∈ client.loop.inFlight ∨
        entry.index ∈ client.phase.stored
  flying : ∀ index entry, client.loop.inFlight[index]? = some entry →
    entry ∈ manifest.chunks ∧ entry.index = index ∧ index ∈ available ∧ index ∉ initial ∧
      index ∉ client.loop.todo.map ChunkMeta.index
  kept : ∀ index ∈ initial, index ∈ client.loop.completed
  gained : ∀ index ∈ client.loop.completed, index ∈ initial ∨ index ∈ available
  phase : PhaseAgrees prims manifest available client

/-- What is on its way between the two sides. -/
structure Transit (prims : Primitives) (manifest : Manifest) (available : TreeSet UInt32)
    (initial : TreeSet UInt32) (state : Exchange) : Prop where
  distinct : state.outstanding.Nodup
  inFlight : ∀ index, index ∈ state.outstanding ↔ index ∈ state.client.loop.inFlight
  replies : ∀ frame ∈ state.toClient, AnswersEntry prims manifest frame
  requests : ∀ message ∈ state.toServer,
    (∃ chunks, message = .have chunks ∧ ∀ index ∈ chunks, index ∈ initial) ∨
      ∃ index ∈ available, message = .requestChunk index

/-- What the server has counted, and why it may leave. -/
structure Served (available : TreeSet UInt32) (state : Exchange) : Prop where
  counted : ∀ index ∈ state.servedOrKnown, index ∈ available ∧
    index ∉ requestedIndices state.toServer ∧
    (index ∈ state.client.loop.todo.map ChunkMeta.index → index ∈ state.client.loop.completed)
  left : ∀ outcome, state.server = .left outcome → outcome = .ok () ∧
    requestedIndices state.toServer = [] ∧
    ∀ entry ∈ state.client.loop.todo,
      entry.index ∈ state.client.loop.completed ∨ entry.index ∉ available

/-- Both sides agree about every chunk. -/
structure Agreed (prims : Primitives) (manifest : Manifest) (available : TreeSet UInt32)
    (initial : TreeSet UInt32) (state : Exchange) : Prop where
  plan : ClientPlan prims manifest available initial state.client
  transit : Transit prims manifest available initial state
  served : Served available state

@[simp]
theorem requestedIndices_append (left right : List WireMessage) :
    requestedIndices (left ++ right) = requestedIndices left ++ requestedIndices right :=
  List.filterMap_append

theorem mem_requestedIndices {messages : List WireMessage} {index : UInt32} :
    index ∈ requestedIndices messages ↔ .requestChunk index ∈ messages := by
  simp only [requestedIndices, List.mem_filterMap]
  constructor
  · rintro ⟨message, member, found⟩
    cases message <;> simp_all
  · intro member
    exact ⟨_, member, rfl⟩

section

variable {prims : Primitives} {outputDir : Option PathBuf} {manifest : Manifest}
  {share : ServedShare} {initial : TreeSet UInt32} {requestWindow : Nat} {state next : Exchange}

/-- Only a running client has nothing in hand when it takes its next turn. -/
theorem outstanding_of_running (running : state.client.phase = .running) :
    state.outstanding = repliedIndices state.toClient ++ requestedIndices state.toServer := by
  simp [Exchange.outstanding, running, WindowPhase.inHand]

/-- Passing an entry that is not needed keeps the agreement. -/
theorem Agreed.skip (agreed : Agreed prims manifest share.available initial state)
    {entry : ChunkMeta} {rest : List ChunkMeta} (running : state.client.phase = .running)
    (here : state.client.loop.todo = entry :: rest)
    (needless : entry.index ∈ state.client.loop.completed ∨ entry.index ∉ share.available) :
    Agreed prims manifest share.available initial
      { state with client := { state.client with
          loop := { state.client.loop with todo := rest } } } := by
  obtain ⟨plan, transit, served⟩ := agreed
  refine ⟨⟨plan.window, plan.owned, ?_, ?_, plan.kept, plan.gained, ?_⟩, ?_, ?_⟩
  · obtain ⟨finished, split, passed⟩ := plan.passed
    refine ⟨finished ++ [entry], by rw [split, here]; simp, ?_⟩
    intro other member has
    obtain old | only := List.mem_append.mp member
    · exact passed other old has
    · obtain rfl : other = entry := by simpa using only
      exact .inl (needless.resolve_right (not_not_intro has))
  · intro index other found
    obtain ⟨member, same, has, new, waiting⟩ := plan.flying index other found
    refine ⟨member, same, has, new, fun later => waiting ?_⟩
    rw [here]
    exact List.mem_cons_of_mem _ later
  · simp [PhaseAgrees, running]
  · exact ⟨transit.distinct, transit.inFlight, transit.replies, transit.requests⟩
  · refine ⟨fun index member => ?_, fun outcome gone => ?_⟩
    · obtain ⟨has, unasked, todo⟩ := served.counted index member
      exact ⟨has, unasked, fun later => todo (by rw [here]; exact List.mem_cons_of_mem _ later)⟩
    · obtain ⟨ok, none_left, todo⟩ := served.left outcome gone
      exact ⟨ok, none_left,
        fun other later => todo other (by rw [here]; exact List.mem_cons_of_mem _ later)⟩

/-- Requesting a missing chunk keeps the agreement; the server has not left. -/
theorem Agreed.send (distinct : (manifest.chunks.map ChunkMeta.index).Nodup)
    (agreed : Agreed prims manifest share.available initial state)
    {entry : ChunkMeta} {rest : List ChunkMeta} (running : state.client.phase = .running)
    (here : state.client.loop.todo = entry :: rest)
    (missing : entry.index ∉ state.client.loop.completed)
    (has : entry.index ∈ share.available) :
    Agreed prims manifest share.available initial
      { state with
        client := { state.client with
          loop := { state.client.loop with
            todo := rest
            inFlight := state.client.loop.inFlight.insert entry.index entry } }
        toServer := state.toServer ++ [.requestChunk entry.index] } := by
  obtain ⟨plan, transit, served⟩ := agreed
  obtain ⟨finished, split, passed⟩ := plan.passed
  have entry_todo : entry.index ∈ state.client.loop.todo.map ChunkMeta.index := by
    rw [here]
    simp
  have entry_mem : entry ∈ manifest.chunks := by
    rw [split, here]
    simp
  have later : entry.index ∉ rest.map ChunkMeta.index := by
    rw [split, here, List.map_append, List.map_cons] at distinct
    exact (List.nodup_cons.mp (List.nodup_append.mp distinct).2.1).1
  have grounded : entry.index ∉ state.client.loop.inFlight := by
    intro flying
    obtain ⟨other, found⟩ := Option.isSome_iff_exists.mp
      (TreeMap.mem_iff_isSome_getElem?.mp flying)
    exact (plan.flying _ other found).2.2.2.2 entry_todo
  have outstanding_eq : Exchange.outstanding
      { state with
        client := { state.client with
          loop := { state.client.loop with
            todo := rest
            inFlight := state.client.loop.inFlight.insert entry.index entry } }
        toServer := state.toServer ++ [.requestChunk entry.index] } =
      state.outstanding ++ [entry.index] := by
    simp [Exchange.outstanding, requestedIndices]
  refine ⟨⟨plan.window, plan.owned, ?_, ?_, plan.kept, plan.gained, ?_⟩,
    ⟨?_, ?_, transit.replies, ?_⟩, ⟨?_, ?_⟩⟩
  · refine ⟨finished ++ [entry], by rw [split, here]; simp, ?_⟩
    intro other member available
    obtain old | only := List.mem_append.mp member
    · obtain done | flying | stored := passed other old available
      · exact .inl done
      · exact .inr (.inl (TreeMap.mem_insert.mpr (.inr flying)))
      · exact .inr (.inr stored)
    · obtain rfl : other = entry := by simpa using only
      exact .inr (.inl (TreeMap.mem_insert.mpr (.inl (by simp))))
  · intro index other found
    rw [TreeMap.getElem?_insert] at found
    split at found
    · rename_i same
      obtain rfl : entry.index = index := Std.LawfulEqCmp.compare_eq_iff_eq.mp same
      obtain rfl := Option.some.inj found
      exact ⟨entry_mem, rfl, has, fun old => missing (plan.kept _ old), later⟩
    · obtain ⟨member, same, available, new, waiting⟩ := plan.flying index other found
      refine ⟨member, same, available, new, fun later => waiting ?_⟩
      rw [here]
      exact List.mem_cons_of_mem _ later
  · simp [PhaseAgrees, running]
  · rw [outstanding_eq, List.nodup_append]
    refine ⟨transit.distinct, List.nodup_singleton _, ?_⟩
    intro index member other only
    obtain rfl := List.mem_singleton.mp only
    rintro rfl
    exact grounded ((transit.inFlight _).mp member)
  · intro index
    rw [outstanding_eq, List.mem_append, transit.inFlight, List.mem_singleton,
      TreeMap.mem_insert, Std.LawfulEqCmp.compare_eq_iff_eq]
    exact ⟨fun either => either.symm.imp Eq.symm id, fun either => either.symm.imp id Eq.symm⟩
  · intro message member
    obtain old | only := List.mem_append.mp member
    · exact transit.requests message old
    · exact .inr ⟨entry.index, has, List.mem_singleton.mp only⟩
  · intro index member
    obtain ⟨available, unasked, todo⟩ := served.counted index member
    refine ⟨available, ?_, fun later => todo ?_⟩
    · rw [requestedIndices_append, List.mem_append]
      rintro (old | new)
      · exact unasked old
      · obtain rfl : index = entry.index := by simpa [requestedIndices] using new
        exact missing (todo entry_todo)
    · rw [here]
      exact List.mem_cons_of_mem _ later
  · intro outcome gone
    obtain ⟨-, -, todo⟩ := served.left outcome gone
    obtain done | absent := todo entry (by rw [here]; exact List.mem_cons_self)
    · exact absurd done missing
    · exact absurd has absent

/-- A raw chunk frame is received as it is. -/
theorem run_receiveChunkToFile_raw (prims : Primitives) (temp : TempPath) (index : UInt32)
    (data : Bytes) (rest : List Frame) (session : LibrarySession) :
    ∃ after, (receiveChunkToFile prims temp (.raw index data :: rest)).run session =
      .ok (.rawChunkFile index data.length (prims.blake3 data), rest) after :=
  ⟨_, rfl⟩

/-- A running client takes an answer into its hand. -/
theorem receive_answer {available : TreeSet UInt32} {client after : WindowedDownload}
    {frame : Frame} {stagingTimestamp : Nat} (answers : AnswersEntry prims manifest frame)
    (step : (downloadMissingChunksWindowed prims outputDir available requestWindow).step client
      (.receive (some frame) stagingTimestamp) = some after) :
    ∃ index data, frame = .raw index data ∧ client.phase = .running ∧ after.loop = client.loop ∧
      after.session.active = client.session.active ∧ after.phase.inHand = [index] ∧
      PhaseAgrees prims manifest available after := by
  obtain ⟨entry, member, data, rfl, hash⟩ := answers
  refine ⟨entry.index, data, rfl, ?_⟩
  have bytes : prims.blake3 data = entry.blake3Hash.bytes := by
    rw [← hash]
    rfl
  cases windowMove_of_step step with
  | @receive _ _ library _ _ _ running full waiting active arrived =>
      obtain ⟨session, received⟩ := run_receiveChunkToFile_raw prims
        { paths := library.paths, index := 0, suffix := stagingTimestamp } entry.index data []
        client.session
      obtain ⟨still, -, there⟩ := receiveChunkToFile_ok arrived
      obtain ⟨⟨rfl, rfl⟩, rfl⟩ := by simpa [received] using arrived
      exact ⟨running, rfl, still, rfl, library, still.trans active, rfl, there, entry, member, rfl,
        bytes⟩
  | @receiveFails _ _ library _ _ running full waiting active failed =>
      obtain ⟨session, received⟩ := run_receiveChunkToFile_raw prims
        { paths := library.paths, index := 0, suffix := stagingTimestamp } entry.index data []
        client.session
      simp [received] at failed
  | receiveMessage running full waiting active arrived =>
      obtain ⟨rfl, rfl⟩ := by simpa [receiveFrame] using arrived
      exact ⟨running, rfl, rfl, rfl, active, entry, member, rfl, hash⟩
  | receiveMessageFails running full waiting active failed =>
      simp [receiveFrame] at failed

/-- Recording a chunk leaves the handle with its share. -/
theorem Recorded.owned {library : ActiveDownloadLibraryState} {index : UInt32}
    {files : ChunkFile → Option Bytes} {before after : LibrarySession}
    (recorded : Recorded library index outputDir files before after) (owned : library.Owned) :
    ∀ other, after.active = some other → other.Owned := by
  intro other active
  obtain ⟨found, -⟩ | ⟨found, -⟩ := recorded.records
  · obtain rfl := Option.some.inj (found.symm.trans active)
    exact owned.marked index
  · obtain rfl := Option.some.inj (found.symm.trans active)
    exact owned.marked index

/-- The reply in the client's hand is stored. -/
theorem persist_answer (distinct : (manifest.chunks.map ChunkMeta.index).Nodup)
    {available : TreeSet UInt32} {client after : WindowedDownload} {elapsed : Bool}
    (plan : ClientPlan prims manifest available initial client)
    (flying : ∀ index ∈ client.phase.inHand, index ∈ client.loop.inFlight)
    (step : (downloadMissingChunksWindowed prims outputDir available requestWindow).step client
      (.persist elapsed) = some after) :
    ∃ index chunk, client.phase.inHand = [index] ∧ client.phase.stored = [] ∧
      after.phase = .persisted index chunk ∧ index ∈ available ∧
      after.loop = { client.loop with inFlight := client.loop.inFlight.erase index } ∧
      ∀ library, after.session.active = some library → library.Owned := by
  have agrees := plan.phase
  have flown (index : UInt32) (member : index ∈ client.loop.inFlight) {entry : ChunkMeta}
      (entry_mem : entry ∈ manifest.chunks) (same : entry.index = index) :
      client.loop.inFlight[index]? = some entry ∧ index ∈ available := by
    obtain ⟨other, found⟩ := Option.isSome_iff_exists.mp
      (TreeMap.mem_iff_isSome_getElem?.mp member)
    obtain ⟨other_mem, other_same, has, -⟩ := plan.flying index other found
    obtain rfl : other = entry :=
      List.inj_on_of_nodup_map distinct other_mem entry_mem (other_same.trans same.symm)
    exact ⟨found, has⟩
  simp only [downloadMissingChunksWindowed, persistNext] at step
  unfold PhaseAgrees at agrees
  split at agrees
  · simp_all
  · rename_i index dataLen blake3Hash temp received
    obtain ⟨library, active, same, arrived, entry, entry_mem, entry_same, hash⟩ := agrees
    obtain ⟨found, has⟩ := flown index (flying index (by simp [received, WindowPhase.inHand]))
      entry_mem entry_same
    obtain ⟨session, persisted, files, data, recorded, -⟩ := storedChunk_of_raw outputDir elapsed
      active (plan.owned library active) same arrived hash
    have ran : (persistReply prims outputDir client.loop.inFlight elapsed
        (.rawChunkFile index dataLen blake3Hash) (some temp)).run client.session =
          .ok (index, none) session := by
      simp [persistReply, takeInFlight, found, hash, persisted, -bind_pure_comp]
    rw [received] at step
    simp only [ran] at step
    obtain rfl := Option.some.inj step
    exact ⟨index, none, by rw [received]; rfl, by rw [received]; rfl, rfl, has, rfl,
      recorded.owned (plan.owned library active)⟩
  · rename_i index data received
    obtain ⟨active, entry, entry_mem, entry_same, hash⟩ := agrees
    obtain ⟨found, has⟩ := flown index (flying index (by simp [received, WindowPhase.inHand]))
      entry_mem entry_same
    have ran : (persistReply prims outputDir client.loop.inFlight elapsed
        (.message (.chunk index data)) none).run client.session =
          .ok (index, some { index, data }) client.session := by
      simp [persistReply, discardTemp, takeInFlight, found, hash, persistDownloadedChunk, active,
        -bind_pure_comp]
    rw [received] at step
    simp only [ran] at step
    obtain rfl := Option.some.inj step
    exact ⟨index, _, by rw [received]; rfl, by rw [received]; rfl, rfl, has, rfl, plan.owned⟩
  all_goals simp_all

/-- Receiving an answer keeps the agreement. -/
theorem Agreed.receive (agreed : Agreed prims manifest share.available initial state)
    {frame : Frame} {rest : List Frame} {stagingTimestamp : Nat} {client : WindowedDownload}
    (arriving : state.toClient = frame :: rest)
    (step : (downloadMissingChunksWindowed prims outputDir share.available requestWindow).step
      state.client (.receive (some frame) stagingTimestamp) = some client) :
    Agreed prims manifest share.available initial { state with client, toClient := rest } := by
  obtain ⟨plan, transit, served⟩ := agreed
  have answers := transit.replies frame (by rw [arriving]; exact List.mem_cons_self)
  obtain ⟨index, data, rfl, running, loop, active, inHand, phase⟩ := receive_answer answers step
  have stored : client.phase.stored = [] := by
    cases holds : client.phase <;> simp_all [WindowPhase.inHand, WindowPhase.stored]
  have outstanding_eq : Exchange.outstanding { state with client, toClient := rest } =
      state.outstanding := by
    rw [outstanding_of_running running, arriving]
    simp [Exchange.outstanding, inHand, repliedIndices]
  refine ⟨⟨?_, ?_, ?_, ?_, ?_, ?_, phase⟩, ⟨?_, ?_, ?_, transit.requests⟩, ⟨?_, ?_⟩⟩
  · rw [loop]
    exact plan.window
  · rw [active]
    exact plan.owned
  · have idle : state.client.phase.stored = [] := by rw [running]; rfl
    simpa only [loop, stored, idle] using plan.passed
  · rw [loop]
    exact plan.flying
  · rw [loop]
    exact plan.kept
  · rw [loop]
    exact plan.gained
  · rw [outstanding_eq]
    exact transit.distinct
  · rw [outstanding_eq, loop]
    exact transit.inFlight
  · intro other member
    exact transit.replies other (by rw [arriving]; exact List.mem_cons_of_mem _ member)
  · simpa only [loop] using served.counted
  · simpa only [loop] using served.left

/-- Storing the reply in hand keeps the agreement. -/
theorem Agreed.persist (distinct : (manifest.chunks.map ChunkMeta.index).Nodup)
    (agreed : Agreed prims manifest share.available initial state) {elapsed : Bool}
    {client : WindowedDownload}
    (step : (downloadMissingChunksWindowed prims outputDir share.available requestWindow).step
      state.client (.persist elapsed) = some client) :
    Agreed prims manifest share.available initial { state with client } := by
  obtain ⟨plan, transit, served⟩ := agreed
  have flying (index : UInt32) (member : index ∈ state.client.phase.inHand) :
      index ∈ state.client.loop.inFlight :=
    (transit.inFlight index).mp (List.mem_append_left _ (List.mem_append_left _ member))
  obtain ⟨index, chunk, inHand, stored, phase, has, loop, owned⟩ :=
    persist_answer distinct plan flying step
  have outstanding_eq :
      state.outstanding = index :: Exchange.outstanding { state with client } := by
    have empty : client.phase.inHand = [] := by rw [phase]; rfl
    simp [Exchange.outstanding, inHand, empty]
  have distinct := transit.distinct
  rw [outstanding_eq, List.nodup_cons] at distinct
  have erased (other : UInt32) : other ∈ client.loop.inFlight ↔
      index ≠ other ∧ other ∈ state.client.loop.inFlight := by
    rw [loop, TreeMap.mem_erase]
    simp
  refine ⟨⟨?_, owned, ?_, ?_, ?_, ?_, ?_⟩,
    ⟨distinct.2, ?_, transit.replies, transit.requests⟩, ⟨?_, ?_⟩⟩
  · rw [loop]
    exact plan.window
  · obtain ⟨finished, split, passed⟩ := plan.passed
    refine ⟨finished, by rw [loop]; exact split, ?_⟩
    intro entry member available
    obtain done | fly | impossible := passed entry member available
    · exact .inl (by rw [loop]; exact done)
    · by_cases same : index = entry.index
      · exact .inr (.inr (by simp [phase, WindowPhase.stored, same]))
      · exact .inr (.inl ((erased _).mpr ⟨same, fly⟩))
    · simp [stored] at impossible
  · intro other entry found
    rw [loop, TreeMap.getElem?_erase] at found
    split at found
    · cases found
    · rw [loop]
      exact plan.flying other entry found
  · rw [loop]
    exact plan.kept
  · rw [loop]
    exact plan.gained
  · simpa [PhaseAgrees, phase] using has
  · intro other
    rw [erased, ← transit.inFlight, outstanding_eq, List.mem_cons]
    constructor
    · intro member
      exact ⟨fun same => distinct.1 (same ▸ member), .inr member⟩
    · rintro ⟨different, same | member⟩
      · exact absurd same.symm different
      · exact member
  · simpa only [loop] using served.counted
  · simpa only [loop] using served.left

/-- Counting a stored chunk as completed keeps the agreement. -/
theorem Agreed.complete (agreed : Agreed prims manifest share.available initial state)
    {index : UInt32} {chunk : Option EncryptedChunk} {window since : Nat}
    {chunks : TreeMap UInt32 EncryptedChunk}
    (persisted : state.client.phase = .persisted index chunk) (positive : 0 < window) :
    Agreed prims manifest share.available initial
      { state with client := { state.client with
          loop := {
            todo := state.client.loop.todo
            inFlight := state.client.loop.inFlight
            activeRequestWindow := window
            chunksSinceWindowGrowth := since
            chunks
            completed := state.client.loop.completed.insert index }
          phase := .running } } := by
  obtain ⟨plan, transit, served⟩ := agreed
  have has : index ∈ share.available := by simpa [PhaseAgrees, persisted] using plan.phase
  have grown (other : UInt32) : other ∈ state.client.loop.completed.insert index ↔
      index = other ∨ other ∈ state.client.loop.completed := by
    simp [TreeSet.mem_insert]
  refine ⟨⟨positive, plan.owned, ?_, plan.flying, ?_, ?_, trivial⟩, ⟨?_, ?_, transit.replies,
    transit.requests⟩, ⟨?_, ?_⟩⟩
  · obtain ⟨finished, split, passed⟩ := plan.passed
    refine ⟨finished, split, ?_⟩
    intro entry member available
    obtain done | fly | stored := passed entry member available
    · exact .inl ((grown _).mpr (.inr done))
    · exact .inr (.inl fly)
    · obtain same : entry.index = index := by
        simpa [persisted, WindowPhase.stored] using stored
      exact .inl ((grown _).mpr (.inl same.symm))
  · intro other old
    exact (grown other).mpr (.inr (plan.kept other old))
  · intro other member
    obtain rfl | old := (grown other).mp member
    · exact .inr has
    · exact plan.gained other old
  · simpa [Exchange.outstanding, persisted, WindowPhase.inHand] using transit.distinct
  · simpa [Exchange.outstanding, persisted, WindowPhase.inHand] using transit.inFlight
  · intro other member
    obtain ⟨available, unasked, todo⟩ := served.counted other member
    exact ⟨available, unasked, fun later => (grown other).mpr (.inr (todo later))⟩
  · intro outcome gone
    obtain ⟨ok, none_left, todo⟩ := served.left outcome gone
    exact ⟨ok, none_left, fun entry later => (todo entry later).imp_left
      fun done => (grown _).mpr (.inr done)⟩

/-- Leaving the client's loop keeps the agreement. -/
theorem Agreed.finish (agreed : Agreed prims manifest share.available initial state)
    (running : state.client.phase = .running)
    (full : state.client.loop.next share.available = none)
    (empty : state.client.loop.inFlight.isEmpty = true) :
    Agreed prims manifest share.available initial
      { state with client := { state.client with phase := .ended (.ok ()) } } := by
  obtain ⟨plan, transit, served⟩ := agreed
  refine ⟨⟨plan.window, plan.owned, ?_, plan.flying, plan.kept, plan.gained, ?_⟩,
    ⟨?_, ?_, transit.replies, transit.requests⟩, ⟨served.counted, served.left⟩⟩
  · simpa only [running, WindowPhase.stored] using plan.passed
  · exact ⟨todo_eq_nil_of_next_eq_none plan.window empty full, empty⟩
  · simpa [Exchange.outstanding, running, WindowPhase.inHand] using transit.distinct
  · simpa [Exchange.outstanding, running, WindowPhase.inHand] using transit.inFlight

/-- A turn of the client's inner loop keeps the agreement. -/
theorem Agreed.request (distinct : (manifest.chunks.map ChunkMeta.index).Nodup)
    (agreed : Agreed prims manifest share.available initial state) {client : WindowedDownload}
    (step : (downloadMissingChunksWindowed prims outputDir share.available requestWindow).step
      state.client (.request none) = some client) :
    Agreed prims manifest share.available initial
      { state with client, toServer := state.toServer ++ requestSent share state.client } := by
  simp only [downloadMissingChunksWindowed, requestNext] at step
  split at step
  · rename_i loop running turn
    obtain rfl := Option.some.inj step
    have silent : requestSent share state.client = [] := by simp [requestSent, turn]
    obtain ⟨entry, rest, -, here, ⟨-, needless, rfl⟩ | ⟨impossible, -⟩⟩ := next_eq_some turn
    · simpa [silent] using agreed.skip running here needless
    · cases impossible
  · rename_i index loop running turn
    obtain rfl := Option.some.inj step
    have sent : requestSent share state.client = [.requestChunk index] := by
      simp [requestSent, turn]
    obtain ⟨entry, rest, -, here, ⟨impossible, -⟩ | ⟨same, missing, has, rfl⟩⟩ :=
      next_eq_some turn
    · cases impossible
    · obtain rfl := Option.some.inj same
      simpa [sent] using agreed.send distinct running here missing has
  · cases step

/-- A client whose server has left does not send a request that could fail. -/
theorem Agreed.failedRequest (agreed : Agreed prims manifest share.available initial state)
    {client : WindowedDownload} {kind : ErrorKind} (gone : state.server.hasLeft = true)
    (step : (downloadMissingChunksWindowed prims outputDir share.available requestWindow).step
      state.client (.request (some kind)) = some client) :
    Agreed prims manifest share.available initial { state with client } := by
  obtain ⟨outcome, left⟩ : ∃ outcome, state.server = .left outcome := by
    cases server : state.server <;> simp_all [ServerPhase.hasLeft]
  simp only [downloadMissingChunksWindowed, requestNext] at step
  split at step
  · rename_i loop running turn
    obtain rfl := Option.some.inj step
    obtain ⟨entry, rest, -, here, ⟨-, needless, rfl⟩ | ⟨impossible, -⟩⟩ := next_eq_some turn
    · exact agreed.skip running here needless
    · cases impossible
  · rename_i index loop running turn
    obtain ⟨entry, rest, -, here, ⟨impossible, -⟩ | ⟨-, missing, has, rfl⟩⟩ := next_eq_some turn
    · cases impossible
    · obtain done | absent := (agreed.served.left outcome left).2.2 entry
        (by rw [here]; exact List.mem_cons_self)
      · exact absurd done missing
      · exact absurd has absent
  · cases step

/-- A client that waits for a reply has a reply coming when the server has left. -/
theorem Agreed.not_closed (agreed : Agreed prims manifest share.available initial state)
    {client : WindowedDownload} {stagingTimestamp : Nat} (silent : state.toClient = [])
    (gone : state.server.hasLeft = true) :
    (downloadMissingChunksWindowed prims outputDir share.available requestWindow).step
      state.client (.receive none stagingTimestamp) ≠ some client := by
  intro step
  obtain ⟨outcome, left⟩ : ∃ outcome, state.server = .left outcome := by
    cases server : state.server <;> simp_all [ServerPhase.hasLeft]
  have unasked := (agreed.served.left outcome left).2.1
  have grounded (running : state.client.phase = .running) :
      state.client.loop.inFlight.isEmpty = true := by
    refine TreeMap.isEmpty_iff_forall_not_mem.mpr fun index flying => ?_
    have member := (agreed.transit.inFlight index).mpr flying
    simp [outstanding_of_running running, silent, unasked, repliedIndices] at member
  cases windowMove_of_step step with
  | receive running full waiting | receiveFails running full waiting
  | receiveMessage running full waiting | receiveMessageFails running full waiting =>
      simp [grounded running] at waiting

end

end Etle
