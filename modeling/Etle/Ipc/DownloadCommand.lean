import Etle.Ipc.Commands
import Etle.Ipc.SafeOutput
import Etle.Transfer.DownloadEffects
import Etle.Transfer.FreshDownload

/-!
# The download command of the daemon

The task of a queued download finds the peers, picks the entry point, downloads, and moves an output
that the client has not named itself to its final place.  An answer that reports a completed
transfer can be relied on, and no file that was there before is lost.
-/

namespace Etle

/-- What the task of a download command finds. -/
structure DownloadSurroundings where
  /-- A path from its text, and its text. -/
  pathOf : String → PathBuf
  display : PathBuf → String
  processId : Nat
  /-- What looking for peers on the local network returns. -/
  discovered : Except String (List SocketAddr)
  /-- Why the directory of an output cannot be made. -/
  parentFailure : PathBuf → Option String
  /-- Why the temporary output cannot be renamed. -/
  renameFailure : Option String
  /-- How the peer at a position answers. -/
  peerAt : Nat → SocketAddr → ParallelPeer
  schedule : ParallelSchedule
  /-- The text of an error. -/
  describe : NetworkError → String

/-- A pre-shared key from a passphrase. -/
def fromPassphrase (prims : Primitives) (passphrase : String) : AuthPsk :=
  ⟨prims.deriveKey "etle v1 psk authentication passphrase" (utf8 passphrase)⟩

section

variable (prims : Primitives) (libraryRoot : PathBuf) (found : DownloadSurroundings)
  (request : DownloadRequest)

/-- The options of the daemon's downloads. -/
def daemonDownloadOptions (resume : Bool) : DownloadFileOptions where
  peerId := "etle-daemon"
  libraryRoot := some libraryRoot
  resume
  requestedShareId := some request.shareId
  requestWindow := request.requestWindow
  authPsk := request.authPsk.map (fromPassphrase prims)

/-- Where the download goes first. -/
def commandOutputPath : PathBuf :=
  match request.output with
  | some output => found.pathOf output
  | none => temporaryDownloadOutputPath libraryRoot found.processId

/-- The peers of the command, or those on the local network. -/
def commandPeers : Except String (List SocketAddr) :=
  if request.peers = [] then
    match found.discovered with
    | .ok [] =>
        .error ("no peers discovered for share " ++ request.shareId.display ++
          "; pass --peer manually or ensure etled discovery is enabled on the LAN")
    | .ok discovered => .ok discovered
    | .error error => .error ("peer discovery failed: " ++ error)
  else .ok request.peers

/-- The entry point for these peers. -/
def commandCall (addresses : List SocketAddr) : DownloadCall :=
  let peers := addresses.mapIdx found.peerAt
  let parallelism := effectiveDownloadParallelism request.parallelism addresses.length
  if 1 < parallelism then .fromPeersParallel parallelism peers found.schedule
  else .fromPeers (peers.map ParallelPeer.attempt)

/-- Move the temporary output to a name that no file has. -/
def moveAutoDownloadOutput (manifestFileName : String) (world : DownloadWorld) :
    Option (Except String PathBuf × DownloadWorld) := do
  let temporaryOutput := temporaryDownloadOutputPath libraryRoot found.processId
  let finalOutput ← uniqueOutputPath (fun path => (world.outputs path).isSome)
    (defaultDownloadOutputPath libraryRoot manifestFileName)
  match found.parentFailure finalOutput <|> found.renameFailure with
  | some error => return (.error error, world)
  | none =>
      let moved := Function.update world.outputs temporaryOutput none
      return (.ok finalOutput,
        { world with
          outputs := Function.update moved finalOutput (world.outputs temporaryOutput) })

/-- The answer of a download. -/
def transferCompletedResponse (output : PathBuf) (manifest : Manifest) : IpcResponse :=
  .transferCompleted request.shareId (found.display output) manifest.fileName manifest.fileSize
    manifest.chunks.length

/-- Carry out a download command.  There is no answer where a loop is not taken to its end. -/
def handleDownloadCommand (resume : Bool) (world : DownloadWorld) :
    Option (IpcResponse × DownloadWorld) :=
  let outputPath := commandOutputPath libraryRoot found request
  match found.parentFailure outputPath with
  | some error => some (.error error, world)
  | none =>
      match commandPeers found request with
      | .error message => some (.error message, world)
      | .ok addresses =>
          match (commandCall found request addresses).run prims outputPath
              (daemonDownloadOptions prims libraryRoot request resume) world with
          | none => none
          | some (.error error after) => some (.error (found.describe error), after)
          | some (.ok manifest after) =>
              if request.output.isSome then
                some (transferCompletedResponse found request outputPath manifest, after)
              else
                (moveAutoDownloadOutput libraryRoot found manifest.fileName after).map
                  fun (moved, final) =>
                    match moved with
                    | .ok output =>
                        (transferCompletedResponse found request output manifest, final)
                    | .error error => (.error error, final)

end

/-- What an answer says about a completed transfer, and where its output is. -/
structure TransferDone (prims : Primitives) (libraryRoot : PathBuf) (found : DownloadSurroundings)
    (request : DownloadRequest) (offered : Manifest → Prop) (response : IpcResponse)
    (before after : DownloadWorld) (manifest : Manifest) (output : PathBuf) : Prop where
  reported : response = transferCompletedResponse found request output manifest
  offered : offered manifest
  content : ∃ written, after.outputs output = some written ∧
    hashFileId prims written = manifest.fileId
  library : ∃ fileKey, CompletedShare prims manifest fileKey after.disk
    { root := libraryRoot, shareId := (descriptorFromManifest prims manifest).shareId }
  named : ∀ requested, request.output = some requested → output = found.pathOf requested
  unnamed : request.output = none → before.outputs output = none ∧
    after.outputs (commandOutputPath libraryRoot found request) = none ∧
    ∃ name, NormalComponent name ∧ output = defaultDownloadOutputDir libraryRoot ++ [name]

section

variable {prims : Primitives} {libraryRoot : PathBuf} {found : DownloadSurroundings}
  {request : DownloadRequest} {offered : Manifest → Prop} {resume : Bool}
  {world after : DownloadWorld} {response : IpcResponse}

theorem offers_commandCall
    (offers : ∀ position address, (found.peerAt position address).link.Offers offered ∧
      (found.peerAt position address).attempt.link.Offers offered) (addresses : List SocketAddr) :
    ∀ link ∈ (commandCall found request addresses).links, link.Offers offered := by
  intro link member
  have from_peers : ∀ peer ∈ addresses.mapIdx found.peerAt,
      peer.link.Offers offered ∧ peer.attempt.link.Offers offered := by
    intro peer position
    obtain ⟨index, _, rfl⟩ := List.mem_mapIdx.mp position
    exact offers index _
  unfold commandCall at member
  dsimp only at member
  split at member
  · obtain ⟨peer, position, found_link⟩ := List.mem_flatMap.mp member
    rcases List.mem_pair.mp found_link with rfl | rfl
    · exact (from_peers peer position).1
    · exact (from_peers peer position).2
  · simp only [DownloadCall.links, List.map_map] at member
    obtain ⟨peer, position, rfl⟩ := List.mem_map.mp member
    exact (from_peers peer position).2

theorem exists_copy_of_firstFreeCopy {isThere : PathBuf → Bool} {parent : PathBuf}
    {name : String} {copyIndex fuel : Nat} {output : PathBuf}
    (first : firstFreeCopy isThere parent name copyIndex fuel = some output) :
    ∃ number, output = parent ++ [copyName name number] := by
  induction fuel generalizing copyIndex with
  | zero => cases first
  | succ fuel ih =>
      rw [firstFreeCopy] at first
      split at first
      · exact ih first
      · exact ⟨copyIndex, (Option.some.inj first).symm⟩

/-- A finished download goes into the output directory. -/
theorem inside_of_uniqueOutputPath {isThere : PathBuf → Bool} {manifestFileName : String}
    {output : PathBuf}
    (chosen : uniqueOutputPath isThere (defaultDownloadOutputPath libraryRoot manifestFileName) =
      some output) :
    ∃ name, NormalComponent name ∧ output = defaultDownloadOutputDir libraryRoot ++ [name] := by
  have normal := normalComponent_safeOutputFileName manifestFileName
  unfold uniqueOutputPath at chosen
  split at chosen
  · obtain ⟨number, rfl⟩ := exists_copy_of_firstFreeCopy chosen
    refine ⟨_, normalComponent_copyName normal number, ?_⟩
    simp [defaultDownloadOutputPath]
  · exact ⟨_, normal, (Option.some.inj chosen).symm⟩

/-- What moving the temporary output does. -/
theorem moved_of_moveAutoDownloadOutput {manifestFileName : String} {moved : Except String PathBuf}
    (ran : moveAutoDownloadOutput libraryRoot found manifestFileName world = some (moved, after)) :
    (∃ error, moved = .error error ∧ after = world) ∨
      ∃ output, moved = .ok output ∧ world.outputs output = none ∧
        (∃ name, NormalComponent name ∧
          output = defaultDownloadOutputDir libraryRoot ++ [name]) ∧
        after = { world with
          outputs := Function.update
            (Function.update world.outputs
              (temporaryDownloadOutputPath libraryRoot found.processId) none)
            output (world.outputs (temporaryDownloadOutputPath libraryRoot found.processId)) } := by
  obtain ⟨output, chosen, rest⟩ := Option.bind_eq_some_iff.mp ran
  cases failure : found.parentFailure output <|> found.renameFailure with
  | some error =>
      simp only [failure] at rest
      obtain ⟨rfl, rfl⟩ := Prod.mk.inj (Option.some.inj rest)
      exact .inl ⟨error, rfl, rfl⟩
  | none =>
      simp only [failure] at rest
      obtain ⟨rfl, rfl⟩ := Prod.mk.inj (Option.some.inj rest)
      have free := free_of_uniqueOutputPath chosen
      exact .inr ⟨output, rfl, by simpa using free, inside_of_uniqueOutputPath chosen, rfl⟩

end

/-- Whatever the peers of a download command send and wherever it fails, the command changes no
share directory that no peer has offered and no file but the one the client has named or the
temporary output, except that a file may appear: the one its answer reports.  An answer that reports
a completed transfer names a file with the hash of a manifest that a peer has offered, and leaves a
completed share; a download without an output of its own has then moved it into the output
directory, to a name that no file had. -/
theorem handleDownloadCommand_effects (prims : Primitives) (libraryRoot : PathBuf)
    (found : DownloadSurroundings) (request : DownloadRequest) (resume : Bool)
    (offered : Manifest → Prop)
    (offers : ∀ position address, (found.peerAt position address).link.Offers offered ∧
      (found.peerAt position address).attempt.link.Offers offered)
    (world after : DownloadWorld) (response : IpcResponse)
    (answered : handleDownloadCommand prims libraryRoot found request resume world =
      some (response, after)) :
    (∀ paths,
      ¬MayOpen prims (daemonDownloadOptions prims libraryRoot request resume) offered paths →
      after.disk paths = world.disk paths) ∧
    (∀ path, path ≠ commandOutputPath libraryRoot found request →
      after.outputs path ≠ world.outputs path → world.outputs path = none ∧
        ∃ manifest, TransferDone prims libraryRoot found request offered response world after
          manifest path) ∧
    ∀ shareId output fileName fileSize chunks,
      response = .transferCompleted shareId output fileName fileSize chunks →
      ∃ manifest place, TransferDone prims libraryRoot found request offered response world after
        manifest place := by
  unfold handleDownloadCommand at answered
  dsimp only at answered
  split at answered
  · obtain ⟨rfl, rfl⟩ := Prod.mk.inj (Option.some.inj answered)
    exact ⟨fun _ _ => rfl, fun _ _ changed => absurd rfl changed, by simp⟩
  · split at answered
    · obtain ⟨rfl, rfl⟩ := Prod.mk.inj (Option.some.inj answered)
      exact ⟨fun _ _ => rfl, fun _ _ changed => absurd rfl changed, by simp⟩
    · rename_i addresses _
      have links := @offers_commandCall found request offered offers addresses
      split at answered
      · cases answered
      · rename_i error left ran
        obtain ⟨rfl, rfl⟩ := Prod.mk.inj (Option.some.inj answered)
        have kept := leavesOthers_rule.call links ran
        exact ⟨kept.shares, fun path away changed => absurd (kept.outputs path away) changed,
          by simp⟩
      · rename_i manifest middle ran
        have kept := leavesOthers_rule.call links ran
        have done := downloadCompleted_rule.call links ran manifest middle rfl
        split at answered
        · rename_i named
          obtain ⟨rfl, rfl⟩ := Prod.mk.inj (Option.some.inj answered)
          refine ⟨kept.shares, fun path away changed => absurd (kept.outputs path away) changed,
            fun _ _ _ _ _ _ => ⟨manifest, _, rfl, done.offered, done.output,
              done.library libraryRoot rfl, fun requested given => ?_, fun missing => ?_⟩⟩
          · simp [commandOutputPath, given]
          · simp [missing] at named
        · rename_i unnamed
          have missing : request.output = none := by simpa using unnamed
          obtain ⟨⟨moved, final⟩, ran_move, same⟩ := Option.map_eq_some_iff.mp answered
          have temporary : commandOutputPath libraryRoot found request =
              temporaryDownloadOutputPath libraryRoot found.processId := by
            simp [commandOutputPath, missing]
          obtain ⟨error, rfl, rfl⟩ | ⟨output, rfl, free, inside, rfl⟩ :=
            moved_of_moveAutoDownloadOutput ran_move
          · obtain ⟨rfl, rfl⟩ := Prod.mk.inj same
            exact ⟨kept.shares, fun path away changed => absurd (kept.outputs path away) changed,
              by simp⟩
          · obtain ⟨rfl, rfl⟩ := Prod.mk.inj same
            obtain ⟨written, content, hash⟩ := done.output
            rw [temporary] at content
            have apart : output ≠ temporaryDownloadOutputPath libraryRoot found.processId := by
              rintro rfl
              rw [content] at free
              cases free
            have fresh : world.outputs output = none :=
              (kept.outputs output (temporary ▸ apart)).symm.trans free
            have reports : TransferDone prims libraryRoot found request offered
                (transferCompletedResponse found request output manifest) world
                { middle with
                  outputs := Function.update
                    (Function.update middle.outputs
                      (temporaryDownloadOutputPath libraryRoot found.processId) none)
                    output (middle.outputs
                      (temporaryDownloadOutputPath libraryRoot found.processId)) }
                manifest output := by
              refine ⟨rfl, done.offered, ⟨written, by simp [content], hash⟩,
                done.library libraryRoot rfl, by simp [missing], fun _ => ⟨fresh, ?_, inside⟩⟩
              simp [temporary, apart.symm]
            refine ⟨kept.shares, fun path away changed => ?_,
              fun _ _ _ _ _ _ => ⟨manifest, output, reports⟩⟩
            by_cases here : path = output
            · subst here
              exact ⟨fresh, manifest, reports⟩
            · refine absurd ?_ changed
              rw [temporary] at away
              simp only [Function.update_of_ne here, Function.update_of_ne away]
              exact kept.outputs path (temporary ▸ away)

/-- A download without an output of its own from one peer. -/
def unnamedRequest : DownloadRequest where
  shareId := (descriptorFromManifest transparentPrimitives (oneByteManifest [0])).shareId
  peers := [.v4 (Vector.replicate 4 10) 7000]
  output := none
  parallelism := 0
  requestWindow := 1
  discoveryPort := 7001
  discoveryTimeoutMs := 1500
  discoveryMulticast := Vector.replicate 4 239
  authPsk := none

/-- The peer offers the share. -/
def offeringLinkOfRequest : PeerLink :=
  offeringLink transparentPrimitives
    (daemonDownloadOptions transparentPrimitives ["library"] unnamedRequest true)
    (Vector.replicate 32 1) ⟨Vector.replicate 32 1⟩ (oneByteManifest [0])
    { nonce := ⟨Vector.replicate 24 0⟩, data := List.replicate 48 0 } [0]

def answeringSurroundings : DownloadSurroundings where
  pathOf text := [text]
  display path := path.getLast?.getD ""
  processId := 7
  discovered := .ok []
  parentFailure _ := none
  renameFailure := none
  peerAt _ _ :=
    { link := offeringLinkOfRequest
      attempt := { answeringAttempt with link := offeringLinkOfRequest } }
  schedule :=
    { workerEvents := fun _ => []
      decryption := { availableParallelism := none, events := fun _ => [] } }
  describe _ := "failed"

/-- The name of the share is taken by another file. -/
def takenWorld : DownloadWorld where
  disk := fun _ => .absent
  outputs path := if path = ["library", "output", "sample.bin"] then some [9] else none

/-- The download goes to a copy of the name. -/
theorem handleDownloadCommand_effects_taken :
    ∃ after manifest place,
      handleDownloadCommand transparentPrimitives ["library"] answeringSurroundings unnamedRequest
          true takenWorld =
        some (.transferCompleted unnamedRequest.shareId "sample (1).bin" "sample.bin" 1 1, after) ∧
      TransferDone transparentPrimitives ["library"] answeringSurroundings unnamedRequest
        (fun manifest => manifest = oneByteManifest [0])
        (.transferCompleted unnamedRequest.shareId "sample (1).bin" "sample.bin" 1 1) takenWorld
        after manifest place := by
  have outcome : (handleDownloadCommand transparentPrimitives ["library"] answeringSurroundings
      unnamedRequest true takenWorld).map Prod.fst =
        some (.transferCompleted unnamedRequest.shareId "sample (1).bin" "sample.bin" 1 1) := by
    decide +kernel
  obtain ⟨⟨response, after⟩, answered, rfl⟩ := Option.map_eq_some_iff.mp outcome
  obtain ⟨manifest, place, done⟩ := (handleDownloadCommand_effects transparentPrimitives
    ["library"] answeringSurroundings unnamedRequest true
    (fun manifest => manifest = oneByteManifest [0])
    (fun _ _ => ⟨offers_offeringLink rfl, offers_offeringLink rfl⟩) takenWorld after _
    answered).2.2 _ _ _ _ _ rfl
  exact ⟨after, manifest, place, answered, done⟩

end Etle
