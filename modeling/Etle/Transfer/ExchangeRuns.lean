import Etle.State.OneByteShare
import Etle.Transfer.ExchangeAgreement

/-!
# Runs of a windowed client and a serving peer

The server counts a chunk only once it is answered, or when the client announced that it has it, so
it cannot leave under an unanswered request.  With the client's steps this gives the agreement in
every reachable state.
-/

namespace Etle

open Std (TreeMap TreeSet)

section

variable {prims : Primitives} {outputDir : Option PathBuf} {manifest : Manifest}
  {share : ServedShare} {initial : TreeSet UInt32} {requestWindow : Nat} {state next : Exchange}

section Serving

variable {disk : Disk} {paths : LibraryPaths} {descriptor : EtleDescriptor}
  (served_share : share = .load prims disk paths descriptor)
  (converted : manifestFromDescriptor descriptor = .ok manifest)
  (distinct : (manifest.chunks.map ChunkMeta.index).Nodup)

include served_share converted in
/-- A server only advertises chunks of the manifest. -/
theorem mem_indices_of_available {index : UInt32} (has : index ∈ share.available) :
    index ∈ manifest.chunks.map ChunkMeta.index := by
  subst served_share
  obtain ⟨entry, member, rfl, -⟩ := mem_available_load.mp has
  rw [chunks_of_manifestFromDescriptor converted]
  exact List.mem_map_of_mem member

/-- Noting an announcement keeps the agreement. -/
theorem Agreed.note (agreed : Agreed prims manifest share.available initial state)
    {chunks : List UInt32} {rest : List WireMessage} (serving : state.server = .serving)
    (arriving : state.toServer = .have chunks :: rest)
    (old : ∀ index ∈ chunks, index ∈ initial) :
    Agreed prims manifest share.available initial
      { state with
        toServer := rest
        servedOrKnown := noteKnown share.available state.servedOrKnown chunks } := by
  obtain ⟨plan, transit, served⟩ := agreed
  have requested : requestedIndices state.toServer = requestedIndices rest := by
    rw [arriving]
    rfl
  have outstanding_eq : Exchange.outstanding
      { state with
        toServer := rest
        servedOrKnown := noteKnown share.available state.servedOrKnown chunks } =
      state.outstanding := by
    simp [Exchange.outstanding, requested]
  refine ⟨plan, ⟨?_, ?_, transit.replies, ?_⟩, ⟨?_, ?_⟩⟩
  · rw [outstanding_eq]
    exact transit.distinct
  · rw [outstanding_eq]
    exact transit.inFlight
  · intro message member
    exact transit.requests message (by rw [arriving]; exact List.mem_cons_of_mem _ member)
  · intro index member
    rw [← requested]
    obtain counted | ⟨announced, has⟩ := mem_noteKnown.mp member
    · exact served.counted index counted
    · have kept := old index announced
      refine ⟨has, fun asked => ?_, fun _ => plan.kept index kept⟩
      have flies := (transit.inFlight index).mp (List.mem_append_right _ asked)
      obtain ⟨entry, found⟩ := Option.isSome_iff_exists.mp
        (TreeMap.mem_iff_isSome_getElem?.mp flies)
      exact (plan.flying index entry found).2.2.2.1 kept
  · intro outcome gone
    cases serving.symm.trans gone

/-- Answering a request keeps the agreement. -/
theorem Agreed.answer (agreed : Agreed prims manifest share.available initial state)
    {index : UInt32} {data : Bytes} {rest : List WireMessage} {entry : ChunkMeta}
    (serving : state.server = .serving) (arriving : state.toServer = .requestChunk index :: rest)
    (has : index ∈ share.available) (member : entry ∈ manifest.chunks)
    (same : entry.index = index) (hash : hashChunk prims data = entry.blake3Hash) :
    Agreed prims manifest share.available initial
      { state with
        toServer := rest
        toClient := state.toClient ++ [.raw index data]
        servedOrKnown := state.servedOrKnown.insert index } := by
  obtain ⟨plan, transit, served⟩ := agreed
  have requested : requestedIndices state.toServer = index :: requestedIndices rest := by
    rw [arriving]
    rfl
  have outstanding_eq : Exchange.outstanding
      { state with
        toServer := rest
        toClient := state.toClient ++ [.raw index data]
        servedOrKnown := state.servedOrKnown.insert index } = state.outstanding := by
    simp [Exchange.outstanding, requested, repliedIndices]
  have once : index ∉ requestedIndices rest := by
    have distinct := (List.nodup_append.mp transit.distinct).2.1
    rw [requested] at distinct
    exact (List.nodup_cons.mp distinct).1
  refine ⟨plan, ⟨?_, ?_, ?_, ?_⟩, ⟨?_, ?_⟩⟩
  · rw [outstanding_eq]
    exact transit.distinct
  · rw [outstanding_eq]
    exact transit.inFlight
  · intro frame found
    obtain old | new := List.mem_append.mp found
    · exact transit.replies frame old
    · exact ⟨entry, member, data, by rw [List.mem_singleton.mp new, same], hash⟩
  · intro message found
    exact transit.requests message (by rw [arriving]; exact List.mem_cons_of_mem _ found)
  · intro other counted
    rw [TreeSet.mem_insert, Std.LawfulEqCmp.compare_eq_iff_eq] at counted
    obtain rfl | counted := counted
    · refine ⟨has, once, fun later => absurd later ?_⟩
      have flies : index ∈ state.client.loop.inFlight :=
        (transit.inFlight index).mp
          (List.mem_append_right _ (by rw [requested]; exact List.mem_cons_self))
      obtain ⟨other, found⟩ := Option.isSome_iff_exists.mp
        (TreeMap.mem_iff_isSome_getElem?.mp flies)
      exact (plan.flying index other found).2.2.2.2
    · obtain ⟨available, unasked, todo⟩ := served.counted other counted
      rw [requested, List.mem_cons, not_or] at unasked
      exact ⟨available, unasked.2, todo⟩
  · intro outcome gone
    cases serving.symm.trans gone

include served_share converted distinct in
/-- Answering the next message keeps the agreement. -/
theorem Agreed.serve (fits : ∀ entry ∈ manifest.chunks, ∀ data,
      (disk paths).chunks (.chunk entry.index) = some data →
        rawChunkHeaderSize + data.length ≤ maxFrameSize)
    (agreed : Agreed prims manifest share.available initial state)
    (step : serveNext share state = some next) :
    Agreed prims manifest share.available initial next := by
  subst served_share
  have chunks_eq := chunks_of_manifestFromDescriptor converted
  unfold serveNext at step
  split at step
  · rename_i message rest serving arriving
    split at step
    · obtain ⟨chunks, rfl, old⟩ | ⟨index, has, rfl⟩ :=
        agreed.transit.requests message (by rw [arriving]; exact List.mem_cons_self)
      · simp only [serveMessage, List.append_nil, Option.some.injEq] at step
        obtain rfl := step
        exact agreed.note serving arriving old
      · obtain ⟨entry, member, same, data, hash, answered⟩ := serveMessage_requestChunk
          (by rw [← chunks_eq]; exact distinct) (by rw [← chunks_eq]; exact fits) has
          state.servedOrKnown
        rw [answered] at step
        obtain rfl := Option.some.inj step
        exact agreed.answer serving arriving has (by rw [chunks_eq]; exact member) same hash
    · cases step
  · cases step

include served_share converted in
/-- A server that has counted every chunk leaves no request unanswered. -/
theorem Agreed.leave (agreed : Agreed prims manifest share.available initial state)
    (step : leaveServing share state = some next) :
    Agreed prims manifest share.available initial next := by
  obtain ⟨plan, transit, served⟩ := agreed
  unfold leaveServing at step
  split at step
  · split at step
    · cases step
    · rename_i full
      obtain rfl := Option.some.inj step
      have length_eq : share.descriptor.chunks.length =
          (manifest.chunks.map ChunkMeta.index).length := by
        rw [List.length_map, chunks_of_manifestFromDescriptor converted, served_share]
        rfl
      have counted {index : UInt32} (member : index ∈ manifest.chunks.map ChunkMeta.index) :
          index ∈ state.servedOrKnown :=
        TreeSet.mem_of_size_eq_length
          (fun other found => mem_indices_of_available served_share converted
            (served.counted other found).1) (by omega) member
      refine ⟨plan, ⟨transit.distinct, transit.inFlight, transit.replies, transit.requests⟩,
        served.counted, fun outcome gone => ⟨?_, ?_, ?_⟩⟩
      · simpa using gone.symm
      · refine List.eq_nil_iff_forall_not_mem.mpr fun index asked => ?_
        obtain ⟨chunks, impossible, -⟩ | ⟨same, has, requested⟩ :=
          transit.requests _ (mem_requestedIndices.mp asked)
        · cases impossible
        · obtain rfl := WireMessage.requestChunk.inj requested
          exact (served.counted index
            (counted (mem_indices_of_available served_share converted has))).2.1 asked
      · intro entry later
        obtain ⟨finished, split, -⟩ := plan.passed
        have member : entry ∈ manifest.chunks := by
          rw [split]
          exact List.mem_append_right _ later
        exact .inl ((served.counted _ (counted (List.mem_map_of_mem member))).2.2
          (List.mem_map_of_mem later))
  · cases step

/-- A server that finds the connection closed leaves no request unanswered. -/
theorem Agreed.disconnected (agreed : Agreed prims manifest share.available initial state)
    (step : serverDisconnected share state = some next) :
    Agreed prims manifest share.available initial next := by
  obtain ⟨plan, transit, served⟩ := agreed
  unfold serverDisconnected at step
  split at step
  · rename_i serving idle
    split at step
    · rename_i closed
      obtain rfl := Option.some.inj step
      refine ⟨plan, ⟨transit.distinct, transit.inFlight, transit.replies, transit.requests⟩,
        served.counted, fun outcome gone => ⟨?_, ?_, ?_⟩⟩
      · simpa using gone.symm
      · rw [idle]
        rfl
      · have agrees := plan.phase
        obtain ⟨outcome, ended⟩ : ∃ outcome, state.client.phase = .ended outcome := by
          cases phase : state.client.phase <;> simp_all [WindowPhase.hasEnded]
        have nothing : state.client.loop.todo = [] := by
          cases outcome with
          | ok =>
              simp only [PhaseAgrees, ended] at agrees
              exact agrees.1
          | error error => simp [PhaseAgrees, ended] at agrees
        simp [nothing]
    · cases step
  · cases step

include served_share converted distinct in
/-- Every step of either side keeps the agreement. -/
theorem agreed_of_step (fits : ∀ entry ∈ manifest.chunks, ∀ data,
      (disk paths).chunks (.chunk entry.index) = some data →
        rawChunkHeaderSize + data.length ≤ maxFrameSize)
    (agreed : Agreed prims manifest share.available initial state) {event : ExchangeEvent}
    (step : (windowedExchange prims outputDir share requestWindow).step state event = some next) :
    Agreed prims manifest share.available initial next := by
  cases event with
  | request failure =>
      cases failure with
      | none =>
          simp only [windowedExchange, clientStep, Option.map_map, Option.map_eq_some_iff] at step
          obtain ⟨client, moved, rfl⟩ := step
          exact agreed.request distinct moved
      | some kind =>
          simp only [windowedExchange] at step
          split at step
          · rename_i gone
            obtain ⟨client, moved, rfl⟩ := Option.map_eq_some_iff.mp step
            exact agreed.failedRequest gone moved
          · cases step
  | receive stagingTimestamp =>
      simp only [windowedExchange] at step
      split at step
      · rename_i frame rest arriving
        simp only [clientStep, Option.map_map, Option.map_eq_some_iff] at step
        obtain ⟨client, moved, rfl⟩ := step
        exact agreed.receive arriving moved
      · rename_i silent
        split at step
        · rename_i gone
          obtain ⟨client, moved, rfl⟩ := Option.map_eq_some_iff.mp step
          exact absurd moved (agreed.not_closed silent gone)
        · cases step
  | persist elapsed =>
      obtain ⟨client, moved, rfl⟩ := Option.map_eq_some_iff.mp step
      exact agreed.persist distinct moved
  | complete =>
      obtain ⟨client, moved, rfl⟩ := Option.map_eq_some_iff.mp step
      cases windowMove_of_step moved with
      | complete persisted kept positive =>
          exact agreed.complete persisted (positive agreed.plan.window)
  | finish =>
      obtain ⟨client, moved, rfl⟩ := Option.map_eq_some_iff.mp step
      cases windowMove_of_step moved with
      | finish running full empty => exact agreed.finish running full empty
  | serve => exact agreed.serve served_share converted distinct fits step
  | leave => exact agreed.leave served_share converted step
  | disconnected => exact agreed.disconnected step

end Serving

/-- Both sides agree when the client enters its loop. -/
theorem agreed_initial (prims : Primitives) (manifest : Manifest) (available : TreeSet UInt32)
    (initial : TreeSet UInt32) (requestWindow : Nat) {session : LibrarySession}
    (owned : ∀ library, session.active = some library → library.Owned) :
    Agreed prims manifest available initial
      (.initial manifest initial session requestWindow) := by
  have unasked : requestedIndices (announcement initial) = [] := by
    unfold announcement
    split <;> rfl
  have nothing : Exchange.outstanding (.initial manifest initial session requestWindow) = [] := by
    simp [Exchange.outstanding, Exchange.initial, WindowedDownload.initial, WindowPhase.inHand,
      repliedIndices, unasked]
  refine ⟨⟨?_, owned, ⟨[], rfl, by simp⟩, ?_, fun _ member => member, fun _ => .inl, trivial⟩,
    ⟨?_, ?_, ?_, ?_⟩, ⟨?_, ?_⟩⟩
  · simp only [Exchange.initial, WindowedDownload.initial, WindowLoop.initial,
      initialRequestWindow]
    omega
  · simp [Exchange.initial, WindowedDownload.initial, WindowLoop.initial]
  · simp [nothing]
  · intro index
    rw [nothing]
    simp [Exchange.initial, WindowedDownload.initial, WindowLoop.initial]
  · simp [Exchange.initial]
  · intro message member
    simp only [Exchange.initial, announcement] at member
    split at member
    · cases member
    · refine .inl ⟨_, List.mem_singleton.mp member, ?_⟩
      intro index found
      exact TreeSet.mem_toList.mp found
  · simp [Exchange.initial]
  · simp [Exchange.initial]

section Runs

variable {disk : Disk} {paths : LibraryPaths} {descriptor : EtleDescriptor}
  (converted : manifestFromDescriptor descriptor = .ok manifest)
  (distinct : (manifest.chunks.map ChunkMeta.index).Nodup)
  (fits : ∀ entry ∈ manifest.chunks, ∀ data,
    (disk paths).chunks (.chunk entry.index) = some data →
      rawChunkHeaderSize + data.length ≤ maxFrameSize)
  {session : LibrarySession}
  (owned : ∀ library, session.active = some library → library.Owned)
  (reached : (windowedExchange prims outputDir (.load prims disk paths descriptor)
    requestWindow).Reaches (.initial manifest initial session requestWindow) state)

include converted distinct fits owned reached

/-- Both sides agree in every reachable state. -/
theorem agreed_of_reaches :
    Agreed prims manifest (ServedShare.load prims disk paths descriptor).available initial
      state :=
  Machine.invariant_of_reaches
    (fun _ _ _ agreed step => agreed_of_step rfl converted distinct fits agreed step)
    (agreed_initial prims manifest _ initial requestWindow owned) reached

/-- Whatever the window, the resumed chunks, the advertised chunks and the interleaving: a server
that has left its loop has answered every request, it never reports an error or fails, the client
never fails, and a client that has ended has what it had before and what the server advertised. -/
theorem windowedExchange_agrees :
    (state.server.hasLeft = true →
      (∀ index, .requestChunk index ∉ state.toServer) ∧
      ∀ index ∈ state.client.loop.inFlight,
        index ∈ state.client.phase.inHand ++ repliedIndices state.toClient) ∧
    (∀ message, .encoded (.error message) ∉ state.toClient) ∧
    (∀ error, state.server ≠ .left (.error error)) ∧
    (∀ error, state.client.phase ≠ .ended (.error error)) ∧
    (state.client.phase = .ended (.ok ()) → ∀ index, index ∈ state.client.loop.completed ↔
      index ∈ initial ∨ index ∈ (ServedShare.load prims disk paths descriptor).available) := by
  obtain ⟨plan, transit, served⟩ := agreed_of_reaches converted distinct fits owned reached
  refine ⟨fun gone => ?_, fun message found => ?_, fun error gone => ?_, fun error ended => ?_,
    fun ended index => ⟨plan.gained index, ?_⟩⟩
  · obtain ⟨outcome, left⟩ : ∃ outcome, state.server = .left outcome := by
      cases server : state.server <;> simp_all [ServerPhase.hasLeft]
    obtain ⟨-, unasked, -⟩ := served.left outcome left
    refine ⟨fun index asked => ?_, fun index flying => ?_⟩
    · have member := mem_requestedIndices.mpr asked
      simp [unasked] at member
    · simpa [Exchange.outstanding, unasked] using (transit.inFlight index).mpr flying
  · obtain ⟨entry, -, data, impossible, -⟩ := transit.replies _ found
    cases impossible
  · cases (served.left _ gone).1
  · have agrees := plan.phase
    simp [PhaseAgrees, ended] at agrees
  · have agrees := plan.phase
    simp only [PhaseAgrees, ended] at agrees
    rintro (old | has)
    · exact plan.kept index old
    · obtain ⟨entry, member, rfl⟩ :=
        List.mem_map.mp (mem_indices_of_available rfl converted has)
      obtain ⟨finished, split, passed⟩ := plan.passed
      rw [agrees.1, List.append_nil] at split
      obtain done | flying | stored := passed entry (split ▸ member) has
      · exact done
      · exact absurd flying (TreeMap.isEmpty_iff_forall_not_mem.mp agrees.2 _)
      · simp [ended, WindowPhase.stored] at stored

omit converted distinct fits owned reached in
/-- A waiting client can receive whatever comes. -/
theorem receiveNext_ne_none {available : TreeSet UInt32} {client : WindowedDownload}
    (running : client.phase = .running) (full : client.loop.next available = none)
    (waiting : client.loop.inFlight.isEmpty = false) (reply : Option Frame)
    (stagingTimestamp : Nat) :
    receiveNext prims available client reply stagingTimestamp ≠ none := by
  simp only [receiveNext, running, full, waiting, Bool.false_eq_true, if_false]
  split
  · split
    · simp
    · split <;> simp
  · split <;> simp

omit converted distinct fits owned reached in
/-- A serving server with a message to read answers it or leaves. -/
theorem serveNext_or_leaveServing {message : WireMessage} {rest : List WireMessage}
    (serving : state.server = .serving) (arriving : state.toServer = message :: rest) :
    serveNext share state ≠ none ∨ leaveServing share state ≠ none := by
  by_cases more : state.servedOrKnown.size < share.descriptor.chunks.length
  · left
    simp only [serveNext, serving, arriving, more, if_true]
    split <;> simp
  · right
    simp [leaveServing, serving, more]

/-- The exchange does not get stuck before the client has ended. -/
theorem hasEnded_of_blocked
    (blocked : (windowedExchange prims outputDir (.load prims disk paths descriptor)
      requestWindow).Blocked state) : state.client.phase.hasEnded = true := by
  obtain ⟨plan, transit, served⟩ := agreed_of_reaches converted distinct fits owned reached
  cases phase : state.client.phase with
  | ended outcome => rfl
  | persisted index chunk =>
      have stuck := blocked .complete
      simp [windowedExchange, clientStep, downloadMissingChunksWindowed, completeNext, phase]
        at stuck
  | received frame temp =>
      have stuck := blocked (.persist false)
      simp only [windowedExchange, clientStep, downloadMissingChunksWindowed, persistNext, phase,
        Option.map_eq_none_iff] at stuck
      split at stuck <;> cases stuck
  | running =>
      have full : state.client.loop.next
          (ServedShare.load prims disk paths descriptor).available = none := by
        have stuck := blocked (.request none)
        simp only [windowedExchange, clientStep, downloadMissingChunksWindowed, requestNext, phase,
          Option.map_eq_none_iff] at stuck
        cases turn : state.client.loop.next
            (ServedShare.load prims disk paths descriptor).available with
        | none => rfl
        | some taken => obtain ⟨_ | index, loop⟩ := taken <;> simp [turn] at stuck
      have waiting : state.client.loop.inFlight.isEmpty = false := by
        have stuck := blocked .finish
        simpa [windowedExchange, clientStep, downloadMissingChunksWindowed, finishLoop, phase,
          full] using stuck
      have silent : state.toClient = [] := by
        cases arriving : state.toClient with
        | nil => rfl
        | cons frame rest =>
            have stuck := blocked (.receive 0)
            simp only [windowedExchange, arriving, clientStep, downloadMissingChunksWindowed,
              Option.map_eq_none_iff] at stuck
            exact absurd stuck (receiveNext_ne_none phase full waiting _ _)
      obtain ⟨index, flying⟩ : ∃ index, index ∈ state.client.loop.inFlight := by
        by_contra none_flying
        simp [TreeMap.isEmpty_iff_forall_not_mem.mpr (not_exists.mp none_flying)] at waiting
      have asked : index ∈ requestedIndices state.toServer := by
        simpa [outstanding_of_running phase, silent, repliedIndices] using
          (transit.inFlight index).mpr flying
      cases server : state.server with
      | left outcome => simp [(served.left outcome server).2.1] at asked
      | serving =>
          cases arriving : state.toServer with
          | nil => simp [arriving, requestedIndices] at asked
          | cons message rest =>
              obtain enabled | enabled :
                  serveNext (.load prims disk paths descriptor) state ≠ none ∨
                    leaveServing (.load prims disk paths descriptor) state ≠ none :=
                serveNext_or_leaveServing server arriving
              · exact absurd (blocked .serve) enabled
              · exact absurd (blocked .leave) enabled

end Runs

/-- The agreement for a share of one chunk that the client fetches into memory. -/
theorem windowedExchange_agrees_on_one_chunk :
    ∃ state, (windowedExchange transparentPrimitives none
        (.load transparentPrimitives oneByteDisk samplePaths
          (descriptorFromManifest transparentPrimitives (oneByteManifest [0]))) 1).Reaches
      (.initial (oneByteManifest [0]) ∅ { disk := oneByteDisk, active := none } 1) state ∧
    state.client.phase = .ended (.ok ()) ∧
    (∀ error, state.client.phase ≠ .ended (.error error)) ∧
    ∀ index, index ∈ state.client.loop.completed ↔ index ∈ (∅ : TreeSet UInt32) ∨
      index ∈ (ServedShare.load transparentPrimitives oneByteDisk samplePaths
        (descriptorFromManifest transparentPrimitives (oneByteManifest [0]))).available := by
  have reached : ∃ state, (windowedExchange transparentPrimitives none
        (.load transparentPrimitives oneByteDisk samplePaths
          (descriptorFromManifest transparentPrimitives (oneByteManifest [0]))) 1).run
      (.initial (oneByteManifest [0]) ∅ { disk := oneByteDisk, active := none } 1)
      [.request none, .serve, .receive 0, .persist false, .complete, .leave, .finish] =
        some state ∧ state.client.phase = .ended (.ok ()) := ⟨_, rfl, rfl⟩
  obtain ⟨state, run, ended⟩ := reached
  obtain ⟨-, -, -, never, final⟩ := windowedExchange_agrees
    (manifestFromDescriptor_descriptorFromManifest transparentPrimitives (oneByteManifest [0]))
    (by decide) (by
      intro entry member data stored
      obtain rfl : oneByteEntry 0 = entry := by
        simpa [oneByteManifest, eq_comm] using member
      obtain rfl : oneByteChunk 0 = data := Option.some.inj stored
      decide) (by simp) ⟨_, run⟩
  exact ⟨state, ⟨_, run⟩, ended, never, final ended⟩

end

end Etle
