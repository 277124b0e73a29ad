import Etle.Transfer.RequestedShare
import Etle.Transfer.ShareLocality
import Etle.Transfer.WorkersRecords

/-!
# What every download call does with the files

The three entry points share their phases: a download from one peer after the negotiation, the
preparation of a parallel download, and its workers.  A relation between the files before a call and
its result that holds of the phases holds of every call, however the peers answer and however the
steps are scheduled.
-/

namespace Etle

open EStateM (Keeps)
open Std (TreeMap TreeSet)

/-- A call of one of the entry points: its peers, and the schedule of its loops. -/
inductive DownloadCall where
  | fromPeerWith (attempt : Attempt)
  | fromPeers (attempts : List Attempt)
  | fromPeersParallel (parallelism : Nat) (peers : List ParallelPeer) (schedule : ParallelSchedule)

/-- The connections that a call may open. -/
def DownloadCall.links : DownloadCall → List PeerLink
  | .fromPeerWith attempt => [attempt.link]
  | .fromPeers attempts => attempts.map Attempt.link
  | .fromPeersParallel _ peers _ => peers.flatMap fun peer => [peer.link, peer.attempt.link]

/-- Make the call. -/
def DownloadCall.run (prims : Primitives) (outputPath : PathBuf) (options : DownloadFileOptions) :
    DownloadCall → DownloadWorld → Option DownloadResult
  | .fromPeerWith attempt, world => Etle.fromPeerWith prims outputPath options attempt world
  | .fromPeers attempts, world => Etle.fromPeers prims outputPath options attempts world
  | .fromPeersParallel parallelism peers schedule, world =>
      Etle.fromPeersParallel prims outputPath options parallelism peers schedule world

/-! ## A download from one peer -/

section Sessions

variable {prims : Primitives} {outputPath : PathBuf} {options : DownloadFileOptions}
  {property : LibrarySession → Prop}

/-- The libraries are those of a session with a property, and no other output has been touched. -/
structure EndsIn (outputPath : PathBuf) (outputs : PathBuf → Option Bytes)
    (property : LibrarySession → Prop) (result : DownloadResult) : Prop where
  session : ∃ session, property session ∧ result.final.disk = session.disk
  outputs : ∀ path, path ≠ outputPath → result.final.outputs path = outputs path

/-- A reconstruction from the library keeps what completing the share keeps. -/
theorem endsIn_of_finishFromLibrary {peer : Manifest × SymmetricKey} {schedule : DecryptSchedule}
    {outputs : PathBuf → Option Bytes} {session : LibrarySession}
    (complete : Keeps property (markDownloadLibraryComplete (outputParentDir outputPath)))
    (holds : property session) {result : DownloadResult}
    (finished : finishFromLibrary prims outputPath peer schedule outputs session = some result) :
    EndsIn outputPath outputs property result := by
  have written (bytes : Bytes) : ∀ path, path ≠ outputPath →
      Function.update outputs outputPath (some bytes) path = outputs path := by
    intro path elsewhere
    simp [elsewhere]
  unfold finishFromLibrary at finished
  split at finished
  · obtain rfl := Option.some.inj finished
    exact ⟨⟨session, holds, rfl⟩, fun _ _ => rfl⟩
  · split at finished
    · cases finished
    · rename_i bytes outcome decrypted
      dsimp only at finished
      split at finished
      · obtain rfl := Option.some.inj finished
        exact ⟨⟨session, holds, rfl⟩, written bytes⟩
      · split at finished
        · rename_i failed
          obtain rfl := Option.some.inj finished
          exact ⟨⟨_, complete.of_error holds failed, rfl⟩, written bytes⟩
        · rename_i marked
          obtain rfl := Option.some.inj finished
          exact ⟨⟨_, complete.of_ok holds marked, rfl⟩, written bytes⟩

theorem endsIn_of_finishDownload {peer : ConnectedDownloadPeer} {schedule : DecryptSchedule}
    {outputs : PathBuf → Option Bytes} {loop : WindowLoop} {session : LibrarySession}
    (complete : Keeps property (markDownloadLibraryComplete (outputParentDir outputPath)))
    (holds : property session) {result : DownloadResult}
    (finished : finishDownload prims outputPath peer schedule outputs loop session = some result) :
    EndsIn outputPath outputs property result := by
  unfold finishDownload at finished
  split at finished
  · obtain rfl := Option.some.inj finished
    exact ⟨⟨session, holds, rfl⟩, fun _ _ => rfl⟩
  · split at finished
    · exact endsIn_of_finishFromLibrary complete holds finished
    · obtain rfl := Option.some.inj finished
      unfold finishFromMemory
      split
      · exact ⟨⟨session, holds, rfl⟩, fun _ _ => rfl⟩
      · exact ⟨⟨session, holds, rfl⟩, fun path elsewhere => by simp [elsewhere]⟩

/-- A download from one peer keeps what its preparation, its chunk loop and completing the share
keep. -/
theorem endsIn_of_downloadFromPeer {attempt : Attempt} {peer : ConnectedDownloadPeer}
    {connection : Connection} {world : DownloadWorld}
    (prepare : Keeps property (prepareDownload prims options (outputParentDir outputPath) peer))
    (loop : ∀ completed chunks session events final, property session →
      (downloadMissingChunksWindowed prims (outputParentDir outputPath) peer.availableChunks
        options.requestWindow).run (.initial peer.manifest completed chunks session
          options.requestWindow) events = some final → property final.session)
    (complete : Keeps property (markDownloadLibraryComplete (outputParentDir outputPath)))
    (start : property { disk := world.disk, active := none }) {result : DownloadResult}
    (finished : downloadFromPeer prims outputPath options attempt peer connection world =
      some result) :
    EndsIn outputPath world.outputs property result := by
  unfold downloadFromPeer at finished
  dsimp only at finished
  split at finished
  · rename_i failed
    obtain rfl := Option.some.inj finished
    exact ⟨⟨_, prepare.of_error start failed, rfl⟩, fun _ _ => rfl⟩
  · rename_i completed chunks session prepared
    have opened := prepare.of_ok start prepared
    split at finished
    · obtain rfl := Option.some.inj finished
      exact ⟨⟨session, opened, rfl⟩, fun _ _ => rfl⟩
    · split at finished
      · rename_i ran
        exact endsIn_of_finishDownload complete (loop _ _ _ _ _ opened ran) finished
      · rename_i ran
        obtain rfl := Option.some.inj finished
        exact ⟨⟨_, loop _ _ _ _ _ opened ran, rfl⟩, fun _ _ => rfl⟩
      · cases finished

end Sessions

/-! ## Every call -/

section Rule

variable {prims : Primitives} {outputPath : PathBuf} {options : DownloadFileOptions}
  {offered : Manifest → Prop} {holds : DownloadWorld → DownloadResult → Prop}

/-- What a relation between the files before a call and its result must satisfy to hold of every
call whose peers offer certain manifests. -/
structure DownloadRule (prims : Primitives) (outputPath : PathBuf) (options : DownloadFileOptions)
    (offered : Manifest → Prop) (holds : DownloadWorld → DownloadResult → Prop) : Prop where
  failed : ∀ error world, holds world (.error error world)
  retried : ∀ error before middle result, holds before (.error error middle) →
    holds middle result → holds before result
  peer : ∀ resume attempt peer connection world result, offered peer.manifest →
    downloadFromPeer prims outputPath { options with resume } attempt peer connection world =
      some result → holds world result
  unprepared : ∀ manifest fileKey world error session, offered manifest →
    (prepareParallel prims outputPath options manifest fileKey).run
      { disk := world.disk, active := none } = .error error session →
    holds world (.error error { world with disk := session.disk })
  workers : ∀ manifest fileKey (world : DownloadWorld) completed session peerCount
    (available : Fin peerCount → TreeSet UInt32) events state, offered manifest →
    (prepareParallel prims outputPath options manifest fileKey).run
      { disk := world.disk, active := none } = .ok completed session →
    (parallelDownloadWorkers prims manifest (outputParentDir outputPath) available).run
      (.initial manifest completed session peerCount) events = some state → state.AllEnded →
    (∀ error, holds world (.error error { world with disk := state.session.disk })) ∧
    (afterWorkers manifest state.completed = .decrypt → ∀ schedule result,
      finishFromLibrary prims outputPath (manifest, fileKey) schedule world.outputs state.session =
        some result → holds world result)

/-- The rule does not depend on the resume option, which the calls set themselves. -/
theorem DownloadRule.withResume (rule : DownloadRule prims outputPath options offered holds)
    (resume : Bool) : DownloadRule prims outputPath { options with resume } offered holds :=
  ⟨rule.failed, rule.retried, rule.peer, rule.unprepared, rule.workers⟩

/-- A download from one peer. -/
theorem DownloadRule.fromPeerWith (rule : DownloadRule prims outputPath options offered holds)
    {attempt : Attempt} {world : DownloadWorld} {result : DownloadResult}
    (offers : attempt.link.Offers offered)
    (finished : fromPeerWith prims outputPath options attempt world = some result) :
    holds world result := by
  unfold Etle.fromPeerWith at finished
  split at finished
  · obtain rfl := Option.some.inj finished
    exact rule.failed _ world
  · rename_i connection connected
    split at finished
    · obtain rfl := Option.some.inj finished
      exact rule.failed _ world
    · rename_i peer rest negotiated
      exact rule.peer options.resume attempt peer rest world result
        (offered_of_connectDownloadPeer offers connected negotiated) finished

/-- Trying peers one after another. -/
theorem DownloadRule.tryPeers (rule : DownloadRule prims outputPath options offered holds)
    {totalPeers number : Nat} {lastError : Option NetworkError} {attempts : List Attempt}
    {world : DownloadWorld} {result : DownloadResult}
    (offers : ∀ attempt ∈ attempts, attempt.link.Offers offered)
    (finished : tryPeers prims outputPath options totalPeers number lastError attempts world =
      some result) : holds world result := by
  induction attempts generalizing number lastError world with
  | nil =>
      obtain rfl := Option.some.inj finished
      exact rule.failed _ world
  | cons attempt rest ih =>
      have here := offers attempt List.mem_cons_self
      have later : ∀ other ∈ rest, other.link.Offers offered := fun other member =>
        offers other (List.mem_cons_of_mem _ member)
      have tried (resume : Bool) {ended : DownloadResult}
          (ran : Etle.fromPeerWith prims outputPath { options with resume } attempt world =
            some ended) : holds world ended :=
        (rule.withResume resume).fromPeerWith here ran
      have attempted {ended : DownloadResult}
          (ran : Etle.fromPeerWith prims outputPath
            (if 1 < totalPeers ∨ 0 < number then { options with resume := true } else options)
            attempt world = some ended) : holds world ended := by
        split at ran
        · exact tried true ran
        · exact tried options.resume ran
      unfold Etle.tryPeers at finished
      dsimp only at finished
      split at finished
      · cases finished
      · rename_i manifest after succeeded
        obtain rfl := Option.some.inj finished
        exact attempted succeeded
      · rename_i error middle failed
        exact rule.retried error world middle result (attempted failed) (ih later finished)

/-- A download from the first peer that succeeds. -/
theorem DownloadRule.fromPeers (rule : DownloadRule prims outputPath options offered holds)
    {attempts : List Attempt} {world : DownloadWorld} {result : DownloadResult}
    (offers : ∀ attempt ∈ attempts, attempt.link.Offers offered)
    (finished : fromPeers prims outputPath options attempts world = some result) :
    holds world result := by
  unfold Etle.fromPeers at finished
  split at finished
  · obtain rfl := Option.some.inj finished
    exact rule.failed _ world
  · exact rule.tryPeers offers finished

/-- When nothing is missing the decision is to decrypt. -/
theorem afterWorkers_of_nothing_missing {manifest : Manifest} {completed : TreeSet UInt32}
    (nothing : missingChunks manifest completed = []) :
    afterWorkers manifest completed = .decrypt := by
  unfold afterWorkers
  split
  · split
    · rename_i entry found
      have missing : entry.index ∈ missingChunks manifest completed := by
        rw [mem_missingChunks]
        refine ⟨List.mem_map_of_mem (List.mem_of_find?_eq_some found), ?_⟩
        simpa [← TreeSet.contains_iff_mem] using List.find?_some found
      rw [nothing] at missing
      cases missing
    · rfl
  · rfl

/-- A parallel download. -/
theorem DownloadRule.fromPeersParallel
    (rule : DownloadRule prims outputPath options offered holds) {parallelism : Nat}
    {peers : List ParallelPeer} {schedule : ParallelSchedule} {world : DownloadWorld}
    {result : DownloadResult}
    (offers : ∀ peer ∈ peers, peer.link.Offers offered ∧ peer.attempt.link.Offers offered)
    (finished : fromPeersParallel prims outputPath options parallelism peers schedule world =
      some result) : holds world result := by
  have attempts : ∀ attempt ∈ peers.map ParallelPeer.attempt, attempt.link.Offers offered := by
    intro attempt member
    obtain ⟨peer, position, rfl⟩ := List.mem_map.mp member
    exact (offers peer position).2
  have resumed := rule.withResume true
  unfold Etle.fromPeersParallel at finished
  split at finished
  · obtain rfl := Option.some.inj finished
    exact rule.failed _ world
  · split at finished
    · exact resumed.fromPeers attempts finished
    · dsimp only at finished
      have gathered : ((peers.take (min parallelism peers.length)).foldl
          (preparePeer prims options)
          { connected := [], reference := none, lastError := none }).From offered peers :=
        preparedPeers_from ⟨by simp, by simp⟩ (fun peer member => List.mem_of_mem_take member)
          fun peer member => (offers peer member).1
      split at finished
      · obtain rfl := Option.some.inj finished
        exact rule.failed _ world
      · obtain rfl := Option.some.inj finished
        exact rule.failed _ world
      · rename_i first peer answer found connected
        refine resumed.fromPeers ?_ finished
        intro attempt member
        obtain rfl : attempt = peer.attempt := by simpa using member
        exact (offers peer (gathered.known (peer, answer) (by simp [connected]))).2
      · rename_i first fileKey found _ _
        have reference := gathered.reference first fileKey found
        split at finished
        · rename_i error session failed
          obtain rfl := Option.some.inj finished
          exact rule.unprepared first fileKey world error session reference failed
        · rename_i completed session prepared
          split at finished
          · rename_i nothing
            -- No worker is needed: the run of no workers decides as they would.
            exact (rule.workers first fileKey world completed session 0 (fun _ => ∅) [] _ reference
              prepared rfl fun worker => worker.elim0).2 (afterWorkers_of_nothing_missing nothing)
              schedule.decryption result finished
          · unfold runParallelWorkers at finished
            dsimp only at finished
            split at finished
            · cases finished
            · rename_i state ran
              split at finished
              · rename_i ended
                obtain ⟨left, decrypted⟩ := rule.workers first fileKey world completed session _ _ _
                  state reference prepared ran ended
                split at finished
                · exact rule.retried .noPeersProvided world _ result (left _)
                    (resumed.fromPeers attempts finished)
                · rename_i decision
                  exact decrypted decision schedule.decryption result finished
              · cases finished

/-- The rule holds of every call. -/
theorem DownloadRule.call (rule : DownloadRule prims outputPath options offered holds)
    {call : DownloadCall} {world : DownloadWorld} {result : DownloadResult}
    (offers : ∀ link ∈ call.links, link.Offers offered)
    (finished : call.run prims outputPath options world = some result) : holds world result := by
  cases call with
  | fromPeerWith attempt => exact rule.fromPeerWith (offers _ (List.mem_singleton.mpr rfl)) finished
  | fromPeers attempts =>
      exact rule.fromPeers (fun attempt member => offers _ (List.mem_map_of_mem member)) finished
  | fromPeersParallel parallelism peers schedule =>
      refine rule.fromPeersParallel (fun peer member => ⟨offers _ ?_, offers _ ?_⟩) finished <;>
        exact List.mem_flatMap.mpr ⟨peer, member, by simp⟩

end Rule

end Etle
