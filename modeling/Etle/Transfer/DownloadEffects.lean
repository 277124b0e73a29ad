import Etle.Transfer.DownloadCalls

/-!
# What a download leaves behind

Whatever the peers send and however the steps are scheduled, a call that succeeds has written an
output with the hash of the manifest it returns and, if it has a library, leaves a completed share
there; and a call touches no other output and no share that no peer has offered, also when it
fails.
-/

namespace Etle

open Std (TreeMap TreeSet)

section

variable {prims : Primitives} {outputPath : PathBuf} {options : DownloadFileOptions}
  {offered : Manifest → Prop}

/-! ## A call that succeeds -/

/-- What a call that succeeds has done. -/
structure DownloadCompleted (prims : Primitives) (outputPath : PathBuf)
    (options : DownloadFileOptions) (offered : Manifest → Prop) (manifest : Manifest)
    (after : DownloadWorld) : Prop where
  offered : offered manifest
  output : ∃ written, after.outputs outputPath = some written ∧
    hashFileId prims written = manifest.fileId
  library : ∀ root, options.libraryRoot = some root → ∃ fileKey,
    CompletedShare prims manifest fileKey after.disk
      { root, shareId := (descriptorFromManifest prims manifest).shareId }

/-- A file that is decrypted in memory has the hash of its manifest. -/
theorem hash_of_decryptToBytes {manifest : Manifest} {chunks : TreeMap UInt32 EncryptedChunk}
    {fileKey : SymmetricKey} {written : Bytes}
    (decrypted : decryptToBytes prims manifest chunks fileKey = .ok written) :
    hashFileId prims written = manifest.fileId := by
  unfold decryptToBytes at decrypted
  cases plain : decryptChunks prims manifest.fileId chunks fileKey manifest.chunks with
  | error error => simp [plain, bind, Except.bind] at decrypted
  | ok found =>
      by_cases hash : hashFileId prims (joinChunks found) = manifest.fileId
      · obtain rfl : joinChunks found = written := by
          simpa [plain, bind, Except.bind, hash, pure, Except.pure] using decrypted
        exact hash
      · simp [plain, bind, Except.bind, hash] at decrypted

/-- A reconstruction from the library that succeeds has written an output with the right hash. -/
theorem output_of_finishFromLibrary {peer : Manifest × SymmetricKey} {schedule : DecryptSchedule}
    {outputs : PathBuf → Option Bytes} {session : LibrarySession} {manifest : Manifest}
    {after : DownloadWorld}
    (finished : finishFromLibrary prims outputPath peer schedule outputs session =
      some (.ok manifest after)) :
    ∃ written, after.outputs outputPath = some written ∧
      hashFileId prims written = manifest.fileId := by
  unfold finishFromLibrary at finished
  split at finished
  · simp at finished
  · split at finished
    · cases finished
    · rename_i written outcome decrypted
      dsimp only at finished
      split at finished
      · simp at finished
      · split at finished
        · simp at finished
        · obtain ⟨rfl, rfl⟩ : peer.1 = manifest ∧ _ = after := by simpa using finished
          exact ⟨written, by simp, (decryptLibraryChunksToFile_ok decrypted).1⟩

/-- A download from one peer that succeeds has written an output with the right hash. -/
theorem output_of_downloadFromPeer {attempt : Attempt} {peer : ConnectedDownloadPeer}
    {connection : Connection} {world after : DownloadWorld} {manifest : Manifest}
    (finished : downloadFromPeer prims outputPath options attempt peer connection world =
      some (.ok manifest after)) :
    ∃ written, after.outputs outputPath = some written ∧
      hashFileId prims written = manifest.fileId := by
  unfold downloadFromPeer at finished
  dsimp only at finished
  split at finished
  · simp at finished
  · split at finished
    · simp at finished
    · split at finished
      · unfold finishDownload at finished
        split at finished
        · simp at finished
        · split at finished
          · exact output_of_finishFromLibrary finished
          · unfold finishFromMemory at finished
            split at finished
            · simp at finished
            · rename_i written decrypted
              obtain ⟨rfl, rfl⟩ : peer.manifest = manifest ∧ _ = after := by simpa using finished
              exact ⟨written, by simp, hash_of_decryptToBytes decrypted⟩
      · simp at finished
      · cases finished

/-- Preparing a parallel download with a library is preparing a resumed download from one peer. -/
theorem run_prepareParallel {root : PathBuf} (withLibrary : options.libraryRoot = some root)
    (manifest : Manifest) (fileKey : SymmetricKey) (session : LibrarySession) :
    (prepareParallel prims outputPath options manifest fileKey).run session =
      match (prepareDownload prims { options with resume := true } (outputParentDir outputPath)
          { manifest, fileKey, availableChunks := ∅ }).run session with
      | .ok (completed, _) after => .ok completed after
      | .error error after => .error error after := by
  obtain ⟨error, -, failed⟩ | ⟨progress, opened, -, ran, -⟩ :=
    run_initializeDownloadLibraryState prims root (descriptorFromManifest prims manifest) fileKey
      (outputParentDir outputPath) true session.disk rfl
  · have opening : (onDisk (initializeDownloadLibraryState prims (some root)
        (descriptorFromManifest prims manifest) fileKey (outputParentDir outputPath) true)).run
        session = .error (.file error) session :=
      EStateM.run_zoom_eq_error.mpr ⟨error, session.disk, failed, rfl, rfl⟩
    simp [prepareParallel, prepareDownload, withLibrary, opening]
  · have opening : (onDisk (initializeDownloadLibraryState prims (some root)
        (descriptorFromManifest prims manifest) fileKey (outputParentDir outputPath) true)).run
        session = _ := run_onDisk_ok ran
    simp only [prepareParallel, prepareDownload, withLibrary, EStateM.run_bind, opening,
      EStateM.run_modify, Option.isSome_some, Option.isNone_some, if_true, Bool.false_eq_true,
      if_false]
    cases (loadResumableChunkIndexes prims manifest (outputParentDir outputPath)).run _ <;> rfl

/-- A call that succeeds has written a file with the hash of the manifest it returns, which a peer
has offered, and with a library it leaves a completed share. -/
theorem downloadCompleted_rule :
    DownloadRule prims outputPath options offered fun _ result => ∀ manifest after,
      result = .ok manifest after →
      DownloadCompleted prims outputPath options offered manifest after where
  failed := by simp
  retried _ _ _ _ _ later := later
  peer resume attempt peer connection world result offer ran := by
    rintro manifest after rfl
    obtain ⟨rfl, -⟩ := downloadFromPeer_ok ran
    refine ⟨offer, output_of_downloadFromPeer ran, fun root withLibrary => ⟨peer.fileKey, ?_⟩⟩
    exact (@completedShare_of_downloadFromPeer prims outputPath { options with resume } root _ _ _ _
      _ _ _ withLibrary rfl ran).1
  unprepared := by simp
  workers manifest fileKey world completed session peerCount available events state offer prepared
      ran ended := by
    refine ⟨by simp, fun decision schedule result finished => ?_⟩
    rintro returned after rfl
    obtain rfl : manifest = returned := (finishFromLibrary_ok finished).1.symm
    refine ⟨offer, output_of_finishFromLibrary finished, fun root withLibrary => ⟨fileKey, ?_⟩⟩
    rw [run_prepareParallel withLibrary] at prepared
    obtain ⟨failure, unread, stopped⟩ | ⟨failure, left, stopped, -⟩ |
        ⟨resumed, start, library, prepared_start, records, -, marked, opened, handle, active,
          loaded⟩ :=
      @run_prepareDownload prims _ { options with resume := true } root withLibrary
        (outputParentDir outputPath) { manifest, fileKey, availableChunks := ∅ } world.disk rfl
    · simp [stopped] at prepared
    · simp [stopped] at prepared
    · obtain ⟨rfl, rfl⟩ : resumed = completed ∧ start = session := by
        simpa [prepared_start] using prepared
      obtain ⟨final, kept, inside, marks⟩ := workersRecords_of_run records
        (fun index member => mem_indices_of_loadResumableChunkIndexes loaded member)
        marked ran ended
      refine (completedShare_of_finishFromLibrary rfl kept (fun index => ?_) finished).1
      rw [marks]
      exact ⟨inside index, fun member => (afterWorkers_eq_decrypt_iff inside).mp decision index
        member⟩

/-! ## Every call -/

/-- The directory of a share that a call may open. -/
def MayOpen (prims : Primitives) (options : DownloadFileOptions) (offered : Manifest → Prop)
    (paths : LibraryPaths) : Prop :=
  ∃ root manifest, options.libraryRoot = some root ∧ offered manifest ∧
    paths = { root, shareId := (descriptorFromManifest prims manifest).shareId }

/-- What a call leaves as it is. -/
structure LeavesOthers (outputPath : PathBuf) (mayOpen : LibraryPaths → Prop)
    (before after : DownloadWorld) : Prop where
  outputs : ∀ path, path ≠ outputPath → after.outputs path = before.outputs path
  shares : ∀ paths, ¬mayOpen paths → after.disk paths = before.disk paths

theorem LeavesOthers.refl {mayOpen : LibraryPaths → Prop} (world : DownloadWorld) :
    LeavesOthers outputPath mayOpen world world :=
  ⟨fun _ _ => rfl, fun _ _ => rfl⟩

theorem LeavesOthers.trans {mayOpen : LibraryPaths → Prop} {first second third : DownloadWorld}
    (before : LeavesOthers outputPath mayOpen first second)
    (after : LeavesOthers outputPath mayOpen second third) :
    LeavesOthers outputPath mayOpen first third where
  outputs path different := (after.outputs path different).trans (before.outputs path different)
  shares paths closed := (after.shares paths closed).trans (before.shares paths closed)

/-- The files that working on one share leaves as they are. -/
def LeavesRest (outputPath : PathBuf) (paths : LibraryPaths) (before after : DownloadWorld) :
    Prop :=
  LeavesOthers outputPath (fun other => other = paths) before after

/-- The session works on one share and has left the directories of the others as they are. -/
structure RestAsIn (paths : LibraryPaths) (disk : Disk) (session : LibrarySession) : Prop where
  opens : session.OpensShare paths
  others : ∀ other, other ≠ paths → session.disk other = disk other

theorem keeps_restAsIn {paths : LibraryPaths} {disk : Disk} {α : Type} {operation : OnLibrary α}
    (acts : OnShare paths operation) : EStateM.Keeps (RestAsIn paths disk) operation :=
  fun session rest => ⟨acts.keeps session rest.opens, fun other different =>
    (acts.others_final rest.opens different).trans (rest.others other different)⟩

theorem EndsIn.leavesRest {paths : LibraryPaths} {world : DownloadWorld} {result : DownloadResult}
    (ends : EndsIn outputPath world.outputs (RestAsIn paths world.disk) result) :
    LeavesRest outputPath paths world result.final := by
  obtain ⟨session, rest, same⟩ := ends.session
  exact ⟨ends.outputs, fun other different => by rw [same, rest.others other different]⟩

theorem leavesRest_of_finishFromLibrary {paths : LibraryPaths}
    {peer : Manifest × SymmetricKey} {schedule : DecryptSchedule}
    {outputs : PathBuf → Option Bytes} {session : LibrarySession}
    (opens : session.OpensShare paths) {result : DownloadResult}
    (finished : finishFromLibrary prims outputPath peer schedule outputs session = some result) :
    LeavesRest outputPath paths { disk := session.disk, outputs } result.final :=
  EndsIn.leavesRest (endsIn_of_finishFromLibrary
    (keeps_restAsIn (onShare_markDownloadLibraryComplete (outputParentDir outputPath)))
    ⟨opens, fun _ _ => rfl⟩ finished)

/-- A download from one peer leaves the share directories alone that it does not work on. -/
theorem leavesRest_of_downloadFromPeer {paths : LibraryPaths}
    {attempt : Attempt} {peer : ConnectedDownloadPeer} {connection : Connection}
    {world : DownloadWorld} {result : DownloadResult}
    (here : ∀ root, options.libraryRoot = some root →
      paths = { root, shareId := (descriptorFromManifest prims peer.manifest).shareId })
    (finished : downloadFromPeer prims outputPath options attempt peer connection world =
      some result) :
    LeavesRest outputPath paths world result.final := by
  have closed : LibrarySession.OpensShare paths { disk := world.disk, active := none } := by
    rintro library ⟨⟩
  refine EndsIn.leavesRest (endsIn_of_downloadFromPeer
    (keeps_restAsIn (onShare_prepareDownload (outputParentDir outputPath) here))
    (fun completed chunks session events final rest ran => ?_)
    (keeps_restAsIn (onShare_markDownloadLibraryComplete (outputParentDir outputPath)))
    ⟨closed, fun _ _ => rfl⟩ finished)
  have confined := @confinedTo_downloadMissingChunksWindowed prims paths
    (outputParentDir outputPath) peer.availableChunks options.requestWindow
  have start : WindowedDownload.WorksOn paths
      (.initial peer.manifest completed chunks session options.requestWindow) :=
    ⟨rest.opens, by simp [WindowedDownload.initial, WindowPhase.temp]⟩
  exact ⟨(confined.proper_of_run start ran).opens, fun other different =>
    (confined.others_of_run start ran different).trans (rest.others other different)⟩

/-- What the phases of a call leave alone, the call leaves alone, since it opens no directory but
that of the offered share. -/
theorem LeavesOthers.of_rest {manifest : Manifest} (offer : offered manifest)
    {before after : DownloadWorld}
    (rest : ∀ paths, (∀ root, options.libraryRoot = some root →
        paths = { root, shareId := (descriptorFromManifest prims manifest).shareId }) →
      LeavesRest outputPath paths before after) :
    LeavesOthers outputPath (MayOpen prims options offered) before after := by
  cases library : options.libraryRoot with
  | some root =>
      have found := rest { root, shareId := (descriptorFromManifest prims manifest).shareId }
        (by rintro other same; rw [library] at same; cases same; rfl)
      exact ⟨found.outputs, fun other closed =>
        found.shares other fun same => closed ⟨root, manifest, library, offer, same⟩⟩
  | none =>
      have anywhere (paths : LibraryPaths) : LeavesRest outputPath paths before after :=
        rest paths (by rintro root same; rw [library] at same; cases same)
      refine ⟨(anywhere { root := [], shareId := (descriptorFromManifest prims
        manifest).shareId }).outputs, fun other _ => ?_⟩
      refine (anywhere { other with root := "" :: other.root }).shares other fun same => ?_
      have lengths := congrArg (fun paths => paths.root.length) same
      simp at lengths

/-- Whatever the outcome, a call touches no other output and no share that no peer has offered. -/
theorem leavesOthers_rule :
    DownloadRule prims outputPath options offered fun before result =>
      LeavesOthers outputPath (MayOpen prims options offered) before result.final where
  failed _ world := .refl world
  retried _ _ _ _ first second := first.trans second
  peer resume attempt peer connection world result offer ran :=
    .of_rest offer fun _ here => @leavesRest_of_downloadFromPeer prims outputPath
      { options with resume } _ attempt peer connection world result here ran
  unprepared manifest fileKey world error session offer failed :=
    .of_rest offer fun _ here => ⟨fun _ _ => rfl, fun _ different =>
      (onShare_prepareParallel here).others_error (by rintro library ⟨⟩) failed different⟩
  workers manifest fileKey world completed session peerCount available events state offer prepared
      ran ended := by
    have worked (paths : LibraryPaths) (here : ∀ root, options.libraryRoot = some root →
        paths = { root, shareId := (descriptorFromManifest prims manifest).shareId }) :
        LeavesRest outputPath paths world { world with disk := state.session.disk } ∧
          state.session.OpensShare paths := by
      have acts := @onShare_prepareParallel prims paths options outputPath manifest fileKey here
      have closed : LibrarySession.OpensShare paths { disk := world.disk, active := none } := by
        rintro library ⟨⟩
      have confined := @confinedTo_parallelDownloadWorkers prims paths manifest
        (outputParentDir outputPath) peerCount available
      have start : ParallelDownload.WorksOn paths
          (.initial manifest completed session peerCount) :=
        ⟨acts.opens_ok closed prepared, by simp [ParallelDownload.initial, DownloadWorker.temp]⟩
      refine ⟨⟨fun _ _ => rfl, fun other different => ?_⟩, (confined.proper_of_run start ran).opens⟩
      exact (confined.others_of_run start ran different).trans
        (acts.others_ok closed prepared different)
    refine ⟨fun error => .of_rest offer fun paths here => (worked paths here).1,
      fun _ schedule result finished => .of_rest offer fun paths here => ?_⟩
    obtain ⟨kept, opens⟩ := worked paths here
    exact kept.trans (leavesRest_of_finishFromLibrary opens finished)

end

/-- A call that succeeds, whatever its peers send and however its steps are scheduled, returns a
manifest that one of them has offered, has written an output with the hash of this manifest, and
with a library leaves there a completed share. -/
theorem download_completes (prims : Primitives) (outputPath : PathBuf)
    (options : DownloadFileOptions) (offered : Manifest → Prop) (call : DownloadCall)
    (world after : DownloadWorld) (manifest : Manifest)
    (offers : ∀ link ∈ call.links, link.Offers offered)
    (succeeded : call.run prims outputPath options world = some (.ok manifest after)) :
    DownloadCompleted prims outputPath options offered manifest after :=
  downloadCompleted_rule.call offers succeeded manifest after rfl

/-- A call that ends, successful or not, leaves every other output and every share directory alone
except those of the shares that its peers offer. -/
theorem download_leaves_others (prims : Primitives) (outputPath : PathBuf)
    (options : DownloadFileOptions) (offered : Manifest → Prop) (call : DownloadCall)
    (world : DownloadWorld) (result : DownloadResult)
    (offers : ∀ link ∈ call.links, link.Offers offered)
    (ended : call.run prims outputPath options world = some result) :
    LeavesOthers outputPath (MayOpen prims options offered) world result.final :=
  leavesOthers_rule.call offers ended

/-- A download of one chunk into a library, tried at two peers of which only the second answers. -/
def libraryOptions : DownloadFileOptions where
  peerId := "downloader"
  libraryRoot := some ["library"]
  resume := false
  requestedShareId := none
  requestWindow := 1
  authPsk := none

def answeringAttempt : Attempt where
  link := offeringLink transparentPrimitives libraryOptions (Vector.replicate 32 1)
    ⟨Vector.replicate 32 1⟩ (oneByteManifest [0])
    { nonce := ⟨Vector.replicate 24 0⟩, data := List.replicate 48 0 } [0]
  windowEvents := [.request none, .receive (some (.raw 0 (oneByteChunk 0))) 0, .persist false,
    .complete, .finish]
  decryption := { availableParallelism := none, events := fun _ => [] }

def unreachableAttempt : Attempt where
  link := { connected := .error .connectionRefused, secret := Vector.replicate 32 1 }
  windowEvents := []
  decryption := { availableParallelism := none, events := fun _ => [] }

def twoPeerCall : DownloadCall := .fromPeers [unreachableAttempt, answeringAttempt]

def untouchedWorld : DownloadWorld where
  disk := fun _ => .absent
  outputs := fun _ => none

theorem offers_twoPeerCall :
    ∀ link ∈ twoPeerCall.links, link.Offers fun manifest => manifest = oneByteManifest [0] := by
  intro link member
  obtain rfl | rfl : link = unreachableAttempt.link ∨ link = answeringAttempt.link := by
    simpa [twoPeerCall, DownloadCall.links] using member
  · rintro connection manifest ⟨⟩
  · exact offers_offeringLink rfl

theorem run_twoPeerCall :
    ∃ after, twoPeerCall.run transparentPrimitives ["sample.bin"] libraryOptions untouchedWorld =
      some (.ok (oneByteManifest [0]) after) := by
  have outcome : (twoPeerCall.run transparentPrimitives ["sample.bin"] libraryOptions
      untouchedWorld).bind (fun
        | .ok manifest _ => some manifest
        | .error _ _ => none) = some (oneByteManifest [0]) := by decide +kernel
  obtain ⟨result, ran, found⟩ := Option.bind_eq_some_iff.mp outcome
  split at found
  · rename_i manifest after
    obtain rfl := Option.some.inj found
    exact ⟨after, ran⟩
  · cases found

/-- The download from the second peer leaves a completed share. -/
theorem download_completes_at_second_peer :
    ∃ after, twoPeerCall.run transparentPrimitives ["sample.bin"] libraryOptions untouchedWorld =
        some (.ok (oneByteManifest [0]) after) ∧
      DownloadCompleted transparentPrimitives ["sample.bin"] libraryOptions
        (fun manifest => manifest = oneByteManifest [0]) (oneByteManifest [0]) after := by
  obtain ⟨after, ran⟩ := run_twoPeerCall
  exact ⟨after, ran, download_completes transparentPrimitives ["sample.bin"] libraryOptions _
    twoPeerCall untouchedWorld after (oneByteManifest [0]) offers_twoPeerCall ran⟩

/-- It leaves the libraries under other roots alone. -/
theorem download_leaves_others_at_second_peer :
    ∃ result, twoPeerCall.run transparentPrimitives ["sample.bin"] libraryOptions untouchedWorld =
        some result ∧
      LeavesOthers ["sample.bin"] (MayOpen transparentPrimitives libraryOptions
        fun manifest => manifest = oneByteManifest [0]) untouchedWorld result.final := by
  obtain ⟨after, ran⟩ := run_twoPeerCall
  exact ⟨_, ran, download_leaves_others transparentPrimitives ["sample.bin"] libraryOptions _
    twoPeerCall untouchedWorld _ offers_twoPeerCall ran⟩

end Etle
