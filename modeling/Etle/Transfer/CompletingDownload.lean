import Etle.Transfer.ExchangeRuns
import Etle.Transfer.FailedDownload
import Etle.Transfer.HonestNegotiation
import Etle.Transfer.OfferCompletion
import Etle.Transfer.ReconstructEquivalence

/-!
# Downloads from a seeder come to an end

A client and a seeder that exchange chunks take a bounded number of steps, whatever their order, and
when neither has a step left both have succeeded.  What the client has stored is then what the
seeder has, so that the reconstruction gives the seeded file.
-/

namespace Etle

open Std (TreeMap TreeSet)

/-! ## Both sides come to an end -/

def WindowPhase.weight : WindowPhase → Nat
  | .running => 1
  | .received _ _ => 3
  | .persisted _ _ => 2
  | .ended _ => 0

def ServerPhase.weight : ServerPhase → Nat
  | .serving => 1
  | .left _ => 0

def WindowedDownload.weight (client : WindowedDownload) : Nat :=
  6 * client.loop.todo.length + client.phase.weight

/-- A bound on the steps that both sides can still take. -/
def Exchange.weight (state : Exchange) : Nat :=
  state.client.weight + 5 * state.toServer.length + 3 * state.toClient.length +
    state.server.weight

/-- What a step of the client takes from its weight, which is enough for a request it may send. -/
def WindowEvent.price : WindowEvent → Nat
  | .request none => 6
  | _ => 1

/-- What a step of the client may add to its weight, which is paid by the frame that has arrived. -/
def WindowEvent.credit : WindowEvent → Nat
  | .receive (some _) _ => 3
  | _ => 0

/-- What a step of both sides is for the client. -/
def ExchangeEvent.ofClient (state : Exchange) : ExchangeEvent → Option WindowEvent
  | .request failure => some (.request failure)
  | .receive stagingTimestamp => some (.receive state.toClient.head? stagingTimestamp)
  | .persist elapsed => some (.persist elapsed)
  | .complete => some .complete
  | .finish => some .finish
  | .serve | .leave | .disconnected => none

/-- What the client does in a run of both sides, with the frames that it receives. -/
def clientEvents (machine : Machine Exchange ExchangeEvent) (start : Exchange)
    (events : List ExchangeEvent) : List WindowEvent :=
  (machine.trace start events).filterMap fun taken => taken.2.1.ofClient taken.1

section Steps

variable {prims : Primitives} {outputDir : Option PathBuf} {share : ServedShare}
  {requestWindow : Nat}

/-- A server answers a message with one frame at most. -/
theorem length_le_of_serveMessage {known later : TreeSet UInt32} {message : WireMessage}
    {frames : List Frame} (served : serveMessage share known message = .ok (frames, later)) :
    frames.length ≤ 1 := by
  have answer := answer_serveMessage share known message
  rw [served] at answer
  cases answer <;> simp

/-- A step of the client pays its price, up to the credit of a frame. -/
theorem weight_of_client_step {available : TreeSet UInt32} {client next : WindowedDownload}
    {event : WindowEvent}
    (step : (downloadMissingChunksWindowed prims outputDir available requestWindow).step
      client event = some next) : next.weight + event.price ≤ client.weight + event.credit := by
  cases windowMove_of_step step with
  | @skip failure entry rest running room here needless =>
      simp only [WindowedDownload.weight, here, List.length_cons, WindowEvent.credit]
      cases failure <;> simp only [WindowEvent.price] <;> omega
  | send running room here missing has =>
      simp only [WindowedDownload.weight, here, List.length_cons, WindowEvent.credit,
        WindowEvent.price]
      omega
  | sendFails running failed =>
      subst failed
      simp [WindowedDownload.weight, running, WindowPhase.weight, WindowEvent.price]
  | @receive reply stagingTimestamp library frame rest session running full waiting active
      arrived =>
      cases reply with
      | none => cases arrived
      | some reply =>
          simp only [WindowedDownload.weight, running, WindowPhase.weight, WindowEvent.price,
            WindowEvent.credit]
          omega
  | @receiveMessage reply stagingTimestamp message rest running full waiting active arrived =>
      cases reply with
      | none => cases arrived
      | some reply =>
          simp only [WindowedDownload.weight, running, WindowPhase.weight, WindowEvent.price,
            WindowEvent.credit]
          omega
  | receiveFails running full waiting active failed =>
      simp only [WindowedDownload.weight, running, WindowPhase.weight, WindowEvent.price]
      omega
  | receiveMessageFails running full waiting active failed =>
      simp only [WindowedDownload.weight, running, WindowPhase.weight, WindowEvent.price]
      omega
  | persist received persisted =>
      simp [WindowedDownload.weight, received, WindowPhase.weight, WindowEvent.price]
  | persistFails received failed =>
      simp only [WindowedDownload.weight, received, WindowPhase.weight, WindowEvent.price]
      omega
  | complete persisted kept positive =>
      simp [WindowedDownload.weight, persisted, WindowPhase.weight, WindowEvent.price]
  | finish running full empty =>
      simp [WindowedDownload.weight, running, WindowPhase.weight, WindowEvent.price]

/-- The client sends one request at a time. -/
theorem length_requestSent_le (client : WindowedDownload) :
    (requestSent share client).length ≤ 1 := by
  unfold requestSent
  split <;> simp

/-- A step of the client that neither sends nor receives. -/
theorem weight_lt_of_clientStep {state next : Exchange} {event : WindowEvent}
    (cheap : event.price = 1) (free : event.credit = 0)
    (step : clientStep prims outputDir share requestWindow state event = some next) :
    next.weight < state.weight := by
  obtain ⟨client, own, rfl⟩ := Option.map_eq_some_iff.mp step
  have paid := weight_of_client_step own
  simp only [Exchange.weight]
  omega

/-- Every step brings the exchange nearer to its end. -/
theorem weight_lt_of_exchangeStep (state : Exchange) (event : ExchangeEvent) (next : Exchange)
    (step : (windowedExchange prims outputDir share requestWindow).step state event = some next) :
    next.weight < state.weight := by
  cases event with
  | request failure =>
      cases failure with
      | none =>
          obtain ⟨after, took, rfl⟩ := Option.map_eq_some_iff.mp step
          obtain ⟨client, own, rfl⟩ := Option.map_eq_some_iff.mp took
          have paid := weight_of_client_step own
          have one := @length_requestSent_le share state.client
          simp only [Exchange.weight, List.length_append, WindowEvent.price,
            WindowEvent.credit] at paid ⊢
          omega
      | some kind =>
          simp only [windowedExchange] at step
          split at step
          · exact weight_lt_of_clientStep rfl rfl step
          · cases step
  | receive stagingTimestamp =>
      simp only [windowedExchange] at step
      split at step
      · rename_i frame rest arriving
        obtain ⟨after, took, rfl⟩ := Option.map_eq_some_iff.mp step
        obtain ⟨client, own, rfl⟩ := Option.map_eq_some_iff.mp took
        have paid := weight_of_client_step own
        simp only [Exchange.weight, arriving, List.length_cons, WindowEvent.price,
          WindowEvent.credit] at paid ⊢
        omega
      · split at step
        · exact weight_lt_of_clientStep rfl rfl step
        · cases step
  | persist elapsed =>
      exact weight_lt_of_clientStep rfl rfl step
  | complete => exact weight_lt_of_clientStep rfl rfl step
  | finish => exact weight_lt_of_clientStep rfl rfl step
  | serve =>
      simp only [windowedExchange, serveNext] at step
      split at step
      · rename_i message rest serving arriving
        split at step
        · split at step <;> obtain rfl := Option.some.inj step
          · rename_i frames known served
            have one := length_le_of_serveMessage served
            simp only [Exchange.weight, arriving, List.length_cons, List.length_append]
            omega
          · simp only [Exchange.weight, arriving, List.length_cons, serving, ServerPhase.weight]
            omega
        · cases step
      · cases step
  | leave =>
      simp only [windowedExchange, leaveServing] at step
      split at step
      · split at step
        · cases step
        · obtain rfl := Option.some.inj step
          simp [Exchange.weight, ServerPhase.weight, *]
      · cases step
  | disconnected =>
      simp only [windowedExchange, serverDisconnected] at step
      split at step
      · split at step
        · obtain rfl := Option.some.inj step
          simp [Exchange.weight, ServerPhase.weight, *]
        · cases step
      · cases step

/-- The client's steps in an exchange are steps of its loop, and the server's leave it alone. -/
theorem client_of_step (state : Exchange) (event : ExchangeEvent) (next : Exchange)
    (step : (windowedExchange prims outputDir share requestWindow).step state event = some next) :
    (event.ofClient state).elim (next.client = state.client) fun mine =>
      (downloadMissingChunksWindowed prims outputDir share.available requestWindow).step
        state.client mine = some next.client := by
  have moved {taken : WindowEvent} {after : Exchange}
      (took : clientStep prims outputDir share requestWindow state taken = some after) :
      (downloadMissingChunksWindowed prims outputDir share.available requestWindow).step
        state.client taken = some after.client := by
    obtain ⟨client, own, rfl⟩ := Option.map_eq_some_iff.mp took
    exact own
  cases event with
  | request failure =>
      cases failure with
      | none =>
          obtain ⟨after, took, rfl⟩ := Option.map_eq_some_iff.mp step
          have own := moved took
          exact own
      | some kind =>
          simp only [windowedExchange] at step
          split at step
          · exact moved step
          · cases step
  | receive stagingTimestamp =>
      simp only [windowedExchange] at step
      cases arriving : state.toClient with
      | nil =>
          simp only [arriving] at step
          split at step
          · simpa [ExchangeEvent.ofClient, arriving] using moved step
          · cases step
      | cons frame rest =>
          simp only [arriving] at step
          obtain ⟨after, took, rfl⟩ := Option.map_eq_some_iff.mp step
          simpa [ExchangeEvent.ofClient, arriving] using moved took
  | persist elapsed => exact moved step
  | complete => exact moved step
  | finish => exact moved step
  | serve =>
      simp only [windowedExchange, serveNext] at step
      split at step
      · split at step
        · split at step <;> obtain rfl := Option.some.inj step <;> rfl
        · cases step
      · cases step
  | leave =>
      simp only [windowedExchange, leaveServing] at step
      split at step
      · split at step
        · cases step
        · obtain rfl := Option.some.inj step
          rfl
      · cases step
  | disconnected =>
      simp only [windowedExchange, serverDisconnected] at step
      split at step
      · split at step
        · obtain rfl := Option.some.inj step
          rfl
        · cases step
      · cases step

end Steps

section Ends

variable {prims : Primitives} {outputDir : Option PathBuf} {manifest : Manifest}
  {initial : TreeSet UInt32} {requestWindow : Nat} {state : Exchange} {disk : Disk}
  {paths : LibraryPaths} {descriptor : EtleDescriptor}
  (converted : manifestFromDescriptor descriptor = .ok manifest)
  (distinct : (manifest.chunks.map ChunkMeta.index).Nodup)
  (fits : ∀ entry ∈ manifest.chunks, ∀ data,
    (disk paths).chunks (.chunk entry.index) = some data →
      rawChunkHeaderSize + data.length ≤ maxFrameSize)
  {session : LibrarySession}
  (owned : ∀ library, session.active = some library → library.Owned)
  (reached : (windowedExchange prims outputDir (.load prims disk paths descriptor)
    requestWindow).Reaches (.initial manifest initial session requestWindow) state)
  (blocked : (windowedExchange prims outputDir (.load prims disk paths descriptor)
    requestWindow).Blocked state)

include converted distinct fits owned reached blocked

/-- When neither side has a step left, both have succeeded. -/
theorem ended_of_blocked :
    state.client.phase = .ended (.ok ()) ∧ state.server = .left (.ok ()) := by
  have ended := hasEnded_of_blocked converted distinct fits owned reached blocked
  obtain ⟨plan, -, served⟩ := agreed_of_reaches converted distinct fits owned reached
  refine ⟨?_, ?_⟩
  · have agrees := plan.phase
    cases phase : state.client.phase with
    | ended outcome =>
        cases outcome with
        | ok value => rfl
        | error error => simp [PhaseAgrees, phase] at agrees
    | running | received _ _ | persisted _ _ => simp [phase, WindowPhase.hasEnded] at ended
  · cases server : state.server with
    | left outcome => rw [(served.left outcome server).1]
    | serving =>
        cases arriving : state.toServer with
        | nil =>
            by_cases more : state.servedOrKnown.size < descriptor.chunks.length
            · have stuck := blocked .disconnected
              simp [windowedExchange, serverDisconnected, server, arriving, ended,
                ServedShare.load, more] at stuck
            · have stuck := blocked .leave
              simp [windowedExchange, leaveServing, server, ServedShare.load, more] at stuck
        | cons message rest =>
            rcases @serveNext_or_leaveServing (.load prims disk paths descriptor) _ _ _ server
              arriving with enabled | enabled
            · exact absurd (blocked .serve) enabled
            · exact absurd (blocked .leave) enabled

/-- The client then has every chunk that the server has. -/
theorem completed_of_blocked {index : UInt32}
    (has : index ∈ (ServedShare.load prims disk paths descriptor).available) :
    index ∈ state.client.loop.completed := by
  have ended := (ended_of_blocked converted distinct fits owned reached blocked).1
  have plan := (agreed_of_reaches converted distinct fits owned reached).plan
  have agrees := plan.phase
  simp only [PhaseAgrees, ended] at agrees
  obtain ⟨entry, member, rfl⟩ :=
    List.mem_map.mp (mem_indices_of_available rfl converted has)
  obtain ⟨finished, split, passed⟩ := plan.passed
  rw [agrees.1, List.append_nil] at split
  rcases passed entry (split ▸ member) has with done | flying | stored
  · exact done
  · exact absurd flying (TreeMap.isEmpty_iff_forall_not_mem.mp agrees.2 _)
  · simp [ended, WindowPhase.stored] at stored

end Ends

/-- Nothing happens after both sides have come to their end. -/
theorem blocked_of_ended {prims : Primitives} {outputDir : Option PathBuf} {share : ServedShare}
    {requestWindow : Nat} {state : Exchange} (ended : state.client.phase.hasEnded = true)
    (left : state.server.hasLeft = true) :
    (windowedExchange prims outputDir share requestWindow).Blocked state := by
  obtain ⟨outcome, phase⟩ : ∃ outcome, state.client.phase = .ended outcome := by
    cases phase : state.client.phase <;> simp_all [WindowPhase.hasEnded]
  obtain ⟨served, server⟩ : ∃ outcome, state.server = .left outcome := by
    cases server : state.server <;> simp_all [ServerPhase.hasLeft]
  have client_done (event : WindowEvent) :
      clientStep prims outputDir share requestWindow state event = none := by
    cases event <;> simp [clientStep, downloadMissingChunksWindowed, requestNext, receiveNext,
      persistNext, completeNext, finishLoop, phase]
  intro event
  cases event with
  | request failure => cases failure <;> simp [windowedExchange, client_done]
  | receive stagingTimestamp =>
      cases arriving : state.toClient <;> simp [windowedExchange, client_done, arriving]
  | persist elapsed => exact client_done _
  | complete => exact client_done _
  | finish => exact client_done _
  | serve => simp [windowedExchange, serveNext, server]
  | leave => simp [windowedExchange, leaveServing, server]
  | disconnected => simp [windowedExchange, serverDisconnected, server]

/-! ## The same chunks on both sides -/

section Reconstruction

variable {prims : Primitives} {manifest : Manifest} {fileKey : SymmetricKey} {disk other : Disk}
  {paths elsewhere : LibraryPaths} {content : Bytes}

/-- The decryption of a chunk looks at its file only. -/
theorem decryptLibraryChunk_of_same_file {entry : ChunkMeta} (fileId : FileId)
    (same : (other elsewhere).chunks (.chunk entry.index) =
      (disk paths).chunks (.chunk entry.index)) :
    decryptLibraryChunk prims other elsewhere fileId fileKey entry =
      decryptLibraryChunk prims disk paths fileId fileKey entry := by
  simp only [decryptLibraryChunk, readChunk, same]

theorem writeDecrypted_congr {decrypt decryptOther : ChunkMeta → DecryptResult}
    {entries : List ChunkMeta} (same : ∀ entry ∈ entries, decryptOther entry = decrypt entry)
    (written : Bytes) : writeDecrypted decryptOther written entries =
      writeDecrypted decrypt written entries := by
  induction entries generalizing written with
  | nil => rfl
  | cons entry rest ih =>
      have here := same entry (.head _)
      have later := ih fun entry member => same entry (.tail _ member)
      simp only [writeDecrypted, here]
      cases decrypt entry with
      | error failure => rfl
      | ok chunk => exact later (written ++ chunk.data)

/-- Two libraries with the same chunks of a manifest reconstruct the same file. -/
theorem sequential_of_same_files
    (same : ∀ entry ∈ manifest.chunks, (other elsewhere).chunks (.chunk entry.index) =
      (disk paths).chunks (.chunk entry.index)) :
    decryptLibraryChunksToFileSequential prims other elsewhere manifest fileKey =
      decryptLibraryChunksToFileSequential prims disk paths manifest fileKey := by
  have written := writeDecrypted_congr (fun entry member =>
    @decryptLibraryChunk_of_same_file prims fileKey disk other paths elsewhere entry
      manifest.fileId (same entry member)) []
  simp only [decryptLibraryChunksToFileSequential, written]

/-- The reconstruction runs until no step is left, and its writes succeed. -/
def DecryptSchedule.RunsOut (prims : Primitives) (disk : Disk) (paths : LibraryPaths)
    (manifest : Manifest) (fileKey : SymmetricKey) (schedule : DecryptSchedule) : Prop :=
  let workerCount := defaultDecryptWorkerCount schedule.availableParallelism manifest.chunks.length
  1 < workerCount → (∀ event ∈ schedule.events workerCount, WritesSucceed event) ∧
    ∃ state, (decryptLibraryChunksToFileParallel prims disk paths manifest fileKey
        workerCount).run (.initial manifest workerCount) (schedule.events workerCount) =
          some state ∧
      (decryptLibraryChunksToFileParallel prims disk paths manifest fileKey
        workerCount).Blocked state

/-- A reconstruction that runs out writes what the sequential one writes. -/
theorem decryptLibraryChunksToFile_of_runsOut (distinct : manifest.indices.Nodup)
    (whole : decryptLibraryChunksToFileSequential prims disk paths manifest fileKey =
      (content, .ok ())) {schedule : DecryptSchedule}
    (runs : schedule.RunsOut prims disk paths manifest fileKey) :
    decryptLibraryChunksToFile prims disk paths manifest fileKey schedule =
      some (content, .ok ()) := by
  unfold decryptLibraryChunksToFile
  dsimp only
  split
  · rw [whole]
  · rename_i several
    obtain ⟨writes, state, run, blocked⟩ := runs (by omega)
    have holds : state.Consistent manifest ∧ state.Explained prims disk paths manifest fileKey :=
      @Machine.invariant_of_obeys _ _ _ (fun _ event => WritesSucceed event)
        (fun reached => reached.Consistent manifest ∧
          reached.Explained prims disk paths manifest fileKey)
        (fun before event after holds succeeds step =>
          ⟨consistent_of_step before event after holds.1 step,
            explained_of_step distinct (by omega) holds.1 holds.2 succeeds step⟩)
        _ state _ ⟨consistent_initial manifest, explained_initial⟩
        (Machine.obeys_of_forall writes _) run
    have returned : state.HasReturned := by
      by_contra running
      refine not_stuck_of_fits holds.1 ?_ ⟨blocked, running⟩
      intro received cursor unwinding
      simpa only [Reconstruction.Explained, unwinding] using holds.2
    obtain ⟨queue, workers, channel, consumer⟩ := state
    obtain ⟨written, outcome, rfl⟩ := returned
    obtain ⟨succeeds, same⟩ : Agrees prims disk paths manifest fileKey written outcome := holds.2
    rw [whole] at succeeds same
    obtain rfl := succeeds.mpr rfl
    obtain rfl := same rfl
    rw [run]

end Reconstruction

/-! ## The whole download -/

/-- A share that a seeder can serve to its end: it reconstructs, and its chunks fit into frames. -/
structure Seeder.Serves (prims : Primitives) (seeder : Seeder) (shareId : ShareId)
    (loaded : LoadedShare) (content : Bytes) : Prop where
  loads : loadShare prims seeder.disk { root := seeder.libraryRoot, shareId } = .ok loaded
  distinct : loaded.manifest.indices.Nodup
  whole : decryptLibraryChunksToFileSequential prims seeder.disk
    { root := seeder.libraryRoot, shareId } loaded.manifest loaded.fileKey = (content, .ok ())
  fits : ∀ entry ∈ loaded.manifest.chunks, ∀ data,
    (seeder.disk { root := seeder.libraryRoot, shareId }).chunks (.chunk entry.index) = some data →
      rawChunkHeaderSize + data.length ≤ maxFrameSize
  /-- Nothing that the client may already hold passes for a chunk. -/
  unique : ∀ entry ∈ loaded.manifest.chunks, ∀ data,
    (seeder.disk { root := seeder.libraryRoot, shareId }).chunks (.chunk entry.index) = some data →
      prims.NoSecondPreimage data

/-- A client and a seeder that can come to an agreement about a share. -/
structure Seeder.Accepts (prims : Primitives) (seeder : Seeder) (options : DownloadFileOptions)
    (secret : Bytes32) (shareId : ShareId) : Prop where
  offers : seeder.Offers options shareId
  psk : options.authPsk = seeder.authPsk
  usable : ∃ sharedSecret,
    diffieHellman prims secret (prims.x25519Public seeder.secret) = .ok sharedSecret

/-- The chunk loops of a client and a seeder. -/
def Seeder.exchange (prims : Primitives) (seeder : Seeder) (options : DownloadFileOptions)
    (outputPath : PathBuf) (shareId : ShareId) (loaded : LoadedShare) :
    Machine Exchange ExchangeEvent :=
  windowedExchange prims (outputParentDir outputPath)
    (.load prims seeder.disk { root := seeder.libraryRoot, shareId } loaded.descriptor)
    options.requestWindow

section

variable {prims : Primitives} {seeder : Seeder} {options : DownloadFileOptions}
  {outputPath root : PathBuf} {shareId : ShareId} {loaded : LoadedShare} {content : Bytes}

theorem manifestFromDescriptor_of_loadShare {disk : Disk} {paths : LibraryPaths}
    (loads : loadShare prims disk paths = .ok loaded) :
    manifestFromDescriptor loaded.descriptor = .ok loaded.manifest := by
  simp only [loadShare, bind, Except.bind, pure, Except.pure] at loads
  split at loads
  · cases loads
  · split at loads
    · cases loads
    · split at loads
      · cases loads
      · rename_i converted
        obtain rfl := Except.ok.inj loads
        exact converted

/-- A seeder advertises every chunk of a share that it serves. -/
theorem Seeder.Serves.available (serves : seeder.Serves prims shareId loaded content)
    {entry : ChunkMeta} (member : entry ∈ loaded.manifest.chunks) :
    entry.index ∈ (ServedShare.load prims seeder.disk { root := seeder.libraryRoot, shareId }
      loaded.descriptor).available := by
  obtain ⟨chunk, decrypts⟩ := (allDecrypt_of_sequential serves.whole).2 entry member
  obtain ⟨cipher, stored, size, hash, -⟩ := decryptLibraryChunk_eq_ok.mp decrypts
  rw [chunks_of_manifestFromDescriptor (manifestFromDescriptor_of_loadShare serves.loads)] at member
  exact mem_available_load.mpr
    ⟨entry, member, rfl, chunkVerifies_iff.mpr ⟨cipher, stored, size, hash⟩⟩

/-- A verified chunk of a share that is served is the seeder's. -/
theorem Seeder.Serves.same_file (serves : seeder.Serves prims shareId loaded content)
    {dir : ShareDir} {entry : ChunkMeta} (member : entry ∈ loaded.manifest.chunks)
    (verified : VerifiedIndex prims loaded.manifest dir entry.index) :
    dir.chunks (.chunk entry.index) =
      (seeder.disk { root := seeder.libraryRoot, shareId }).chunks (.chunk entry.index) := by
  obtain ⟨chunk, decrypts⟩ := (allDecrypt_of_sequential serves.whole).2 entry member
  obtain ⟨cipher, stored, -, hash, -⟩ := decryptLibraryChunk_eq_ok.mp decrypts
  obtain ⟨other, other_member, same, data, found, verifies⟩ := verified
  obtain rfl : other = entry :=
    List.inj_on_of_nodup_map serves.distinct other_member member same
  rw [found, stored, serves.unique other member cipher stored data
    (congrArg ChunkHash.bytes (verifies.trans hash.symm))]

/-- A library in which every chunk is verified reconstructs what the seeder's does. -/
theorem Seeder.Serves.whole_of_verified (serves : seeder.Serves prims shareId loaded content)
    {disk : Disk} {paths : LibraryPaths} (verified : ∀ entry ∈ loaded.manifest.chunks,
      VerifiedIndex prims loaded.manifest (disk paths) entry.index) :
    decryptLibraryChunksToFileSequential prims disk paths loaded.manifest loaded.fileKey =
      (content, .ok ()) := by
  rw [← serves.whole]
  exact sequential_of_same_files fun entry member =>
    serves.same_file member (verified entry member)

/-- A reconstruction that succeeds writes to the output what it decrypts. -/
theorem outputs_of_finishFromLibrary {peer : Manifest × SymmetricKey} {schedule : DecryptSchedule}
    {outputs : PathBuf → Option Bytes} {session : LibrarySession}
    {library : ActiveDownloadLibraryState} {written : Bytes} {result : Manifest}
    {after : DownloadWorld} (active : session.active = some library)
    (decrypted : decryptLibraryChunksToFile prims session.disk library.paths peer.1 peer.2
      schedule = some (written, .ok ()))
    (finished : finishFromLibrary prims outputPath peer schedule outputs session =
      some (.ok result after)) : after.outputs outputPath = some written := by
  simp only [finishFromLibrary, active, activeDownloadState, decrypted] at finished
  split at finished
  · cases finished
  · cases finished
    simp

end

/-- Whatever the client has left in its library, and whatever the order of their steps: a client and
a seeder take a bounded number of steps, and when neither has one left both have succeeded.  Once
the reconstruction runs out too, the download has succeeded, its output is the file that the
seeder's share holds, and the client has a completed share of its own. -/
theorem download_from_seeder_completes (prims : Primitives) (correct : prims.AeadCorrect)
    (encrypts : prims.EncryptsShort) (agreement : prims.AgreementCorrect) (seeder : Seeder)
    (options : DownloadFileOptions) (secret : Bytes32) (shareId : ShareId) (loaded : LoadedShare)
    (content : Bytes) (accepts : seeder.Accepts prims options secret shareId)
    (serves : seeder.Serves prims shareId loaded content) (root : PathBuf)
    (withLibrary : options.libraryRoot = some root) (outputPath : PathBuf) (world : DownloadWorld)
    (completed : TreeSet UInt32) (chunks : TreeMap UInt32 EncryptedChunk)
    (session : LibrarySession)
    (opened : (prepareDownload prims options (outputParentDir outputPath) loaded.peer).run
      { disk := world.disk, active := none } = .ok (completed, chunks) session)
    (events : List ExchangeEvent) (state : Exchange)
    (run : (seeder.exchange prims options outputPath shareId loaded).run
      (.initial loaded.manifest completed session options.requestWindow) events = some state) :
    let paths : LibraryPaths :=
      { root, shareId := (descriptorFromManifest prims loaded.manifest).shareId }
    let exchange := seeder.exchange prims options outputPath shareId loaded
    let start := Exchange.initial loaded.manifest completed session options.requestWindow
    events.length ≤ 6 * loaded.manifest.chunks.length + 7 ∧
    (exchange.Blocked state → state.server = .left (.ok ()) ∧
      ∀ decryption : DecryptSchedule,
        decryption.RunsOut prims state.client.session.disk paths loaded.manifest loaded.fileKey →
        ∃ after, fromPeerWith prims outputPath options
            { link := seeder.link prims options secret
              windowEvents := clientEvents exchange start events
              decryption } world = some (.ok loaded.manifest after) ∧
          after.outputs outputPath = some content ∧
          CompletedShare prims loaded.manifest loaded.fileKey after.disk paths) := by
  intro paths exchange start
  have converted := manifestFromDescriptor_of_loadShare serves.loads
  have availability : loaded.peer.availableChunks = (ServedShare.load prims seeder.disk
      { root := seeder.libraryRoot, shareId } loaded.descriptor).available := by
    simp only [LoadedShare.peer, availableChunks_of_loadShare serves.loads, ServedShare.load]
  -- What the client's library holds when it enters the loop.
  obtain ⟨failure, -, stopped⟩ | ⟨failure, left, stopped, -⟩ |
      ⟨done, prepared, library, prepared_run, records, -, marked, before, handle, active, loads⟩ :=
    @run_prepareDownload prims paths _ _ withLibrary (outputParentDir outputPath) loaded.peer
      world.disk rfl
  · exact absurd (stopped.symm.trans opened) (by simp)
  · exact absurd (stopped.symm.trans opened) (by simp)
  obtain ⟨⟨rfl, rfl⟩, rfl⟩ : (done = completed ∧ ∅ = chunks) ∧ prepared = session := by
    simpa using prepared_run.symm.trans opened
  have owned : ∀ current, prepared.active = some current → current.Owned := by
    intro current found
    obtain rfl := Option.some.inj (records.active.symm.trans found)
    exact records.owned
  refine ⟨?_, fun blocked => ?_⟩
  · have bound := Machine.length_le_of_measure Exchange.weight weight_lt_of_exchangeStep run
    have announced : (announcement done).length ≤ 1 := by
      unfold announcement
      split <;> simp
    simp only [Exchange.weight, WindowedDownload.weight, Exchange.initial,
      WindowedDownload.initial, WindowLoop.initial, WindowPhase.weight, ServerPhase.weight,
      List.length_nil] at bound
    omega
  · obtain ⟨client_ended, server_ended⟩ :=
      ended_of_blocked converted serves.distinct serves.fits owned ⟨_, run⟩ blocked
    refine ⟨server_ended, fun decryption runs => ?_⟩
    have looped := Machine.run_part Exchange.client (fun state event => event.ofClient state)
      client_of_step run
    rw [← availability] at looped
    obtain ⟨current, kept, -, marks⟩ := windowRecords_of_run records marked looped
    obtain ⟨same, verified⟩ := windowVerified_of_reaches active loads ⟨_, looped⟩
    obtain rfl := Option.some.inj (verified.download.active.symm.trans kept.active)
    -- Every chunk is verified on the client's side, and therefore the seeder's.
    have all : ∀ entry ∈ loaded.manifest.chunks, entry.index ∈ state.client.loop.completed :=
      fun entry member => completed_of_blocked converted serves.distinct serves.fits owned
        ⟨_, run⟩ blocked (serves.available member)
    have whole := serves.whole_of_verified fun entry member =>
      verified.download.completed _ (all entry member)
    rw [← kept.located] at runs
    have decrypted := decryptLibraryChunksToFile_of_runsOut serves.distinct whole runs
    obtain ⟨sharedSecret, usable⟩ := accepts.usable
    obtain ⟨connection, rest, connected, negotiated, open_ended⟩ :=
      negotiation_completes correct encrypts agreement accepts.offers accepts.psk usable
        serves.loads
    obtain ⟨announcing, announced⟩ := run_announceCompleted open_ended done
    obtain ⟨after, finished⟩ := @finishFromLibrary_of_decrypted prims outputPath
      (loaded.manifest, loaded.fileKey) _ _ _ _ kept.active kept.owned decrypted world.outputs
    let attempt : Attempt := {
      link := seeder.link prims options secret
      windowEvents := clientEvents exchange start events
      decryption }
    have downloaded : downloadFromPeer prims outputPath options attempt loaded.peer rest world =
        some (.ok loaded.manifest after) := by
      have ended : (downloadMissingChunksWindowed prims (outputParentDir outputPath)
          loaded.peer.availableChunks options.requestWindow).run
          (.initial loaded.manifest done ∅ prepared options.requestWindow)
          attempt.windowEvents = some {
            loop := state.client.loop
            session := state.client.session
            phase := .ended (.ok ()) } := by
        rw [← client_ended]
        exact looped
      rw [downloadFromPeer_of_loop opened announced ended]
      simp only [finishDownload, LoadedShare.peer, firstMissing_eq_none all]
      rw [if_pos (by simp [kept.active])]
      exact finished
    refine ⟨after, ?_, outputs_of_finishFromLibrary kept.active decrypted finished,
      (completedShare_of_downloadFromPeer withLibrary rfl downloaded).1⟩
    rw [← downloaded]
    exact fromPeerWith_of_negotiated attempt connected negotiated world

/-! ## A share of one byte -/

/-- A seeder of a library that holds a share of one byte. -/
def heldSeeder : Seeder := { sampleSeeder with disk := heldDisk }

/-- What it loads. -/
def heldShare : LoadedShare where
  descriptor := descriptorFromManifest transparentPrimitives (oneByteManifest [0])
  fileKey := sampleKey
  manifest := oneByteManifest [0]
  availableChunks := (oneByteManifest [0]).indices

/-- A client that asks for the share. -/
def heldShareOptions : DownloadFileOptions :=
  { askingOptions with requestedShareId := some heldPaths.shareId }

/-- The client opens its library, and then both sides exchange the chunk. -/
def heldExchange : Option Exchange :=
  match (prepareDownload transparentPrimitives heldShareOptions none heldShare.peer).run
      { disk := fun _ => .absent, active := none } with
  | .ok (completed, _) session =>
      (heldSeeder.exchange transparentPrimitives heldShareOptions ["out.bin"] heldPaths.shareId
        heldShare).run (.initial heldShare.manifest completed session 1)
        [.request none, .serve, .receive 9, .persist false, .complete, .leave, .finish]
  | .error _ _ => none

theorem chunk_of_heldDisk {entry : ChunkMeta} (member : entry ∈ heldShare.manifest.chunks)
    {data : Bytes} (stored : (heldDisk heldPaths).chunks (.chunk entry.index) = some data) :
    entry = oneByteEntry 0 ∧ data = oneByteChunk 0 := by
  obtain rfl : entry = oneByteEntry 0 := by
    simpa [heldShare, oneByteManifest] using member
  have found : (heldDisk heldPaths).chunks (.chunk (oneByteEntry 0).index) =
      some (oneByteChunk 0) := by
    rw [heldDisk, Function.update_self]
    rfl
  exact ⟨rfl, Option.some.inj (stored.symm.trans found)⟩

theorem serves_heldSeeder :
    heldSeeder.Serves transparentPrimitives heldPaths.shareId heldShare [0] := by
  have located : ({ root := heldSeeder.libraryRoot, shareId := heldPaths.shareId } :
      LibraryPaths) = heldPaths := rfl
  have disk : heldSeeder.disk = heldDisk := rfl
  refine ⟨holdsShare_heldDisk.loaded, by decide, ?_, ?_, ?_⟩ <;> rw [located, disk]
  · have same : decryptLibraryChunksToFileSequential transparentPrimitives heldDisk heldPaths
        heldShare.manifest heldShare.fileKey =
        decryptLibraryChunksToFileSequential transparentPrimitives oneByteDisk heldPaths
          heldShare.manifest heldShare.fileKey := by
      refine sequential_of_same_files fun entry member => ?_
      rw [heldDisk, Function.update_self]
      rfl
    exact same.trans rfl
  · intro entry member data stored
    obtain ⟨rfl, rfl⟩ := chunk_of_heldDisk member stored
    decide
  · intro entry member data stored
    obtain ⟨rfl, rfl⟩ := chunk_of_heldDisk member stored
    exact noSecondPreimage_transparent (by decide)

/-- The share is downloaded. -/
theorem download_from_seeder_completes_one_byte :
    ∃ attempt after, attempt.link =
        heldSeeder.link transparentPrimitives heldShareOptions (Vector.replicate 32 1) ∧
      fromPeerWith transparentPrimitives ["out.bin"] heldShareOptions attempt
        { disk := fun _ => .absent, outputs := fun _ => none } =
          some (.ok (oneByteManifest [0]) after) ∧
      after.outputs ["out.bin"] = some [0] := by
  have ends : heldExchange.any (fun state =>
      state.client.phase.hasEnded && state.server.hasLeft) = true := by
    decide +kernel
  obtain ⟨state, ran, ended⟩ := (Option.any_eq_true _ _).mp ends
  obtain ⟨ended, left⟩ := Bool.and_eq_true_iff.mp ended
  unfold heldExchange at ran
  split at ran
  · rename_i completed chunks session opened
    obtain ⟨-, finishes⟩ := download_from_seeder_completes transparentPrimitives
      aeadCorrect_transparent encryptsShort_transparent agreementCorrect_transparent heldSeeder
      heldShareOptions (Vector.replicate 32 1) heldPaths.shareId heldShare [0]
      ⟨.inl ⟨rfl, rfl⟩, rfl, _, diffieHellman_eq_ok.mpr ⟨rfl, by decide +kernel⟩⟩
      serves_heldSeeder ["downloads"] rfl ["out.bin"]
      { disk := fun _ => .absent, outputs := fun _ => none } completed chunks session opened _
      state ran
    obtain ⟨-, downloads⟩ := finishes (blocked_of_ended ended left)
    obtain ⟨after, finished, output, -⟩ :=
      downloads { availableParallelism := some 1, events := fun _ => [] }
        (fun several => absurd several (by decide))
    exact ⟨_, after, rfl, finished, output⟩
  · cases ran

end Etle
