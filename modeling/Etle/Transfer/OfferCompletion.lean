import Etle.Transfer.DownloadRecords
import Etle.Transfer.Negotiation
import Etle.Transfer.ReconstructOutcome

/-!
# Offers that can be completed

A peer that offers a manifest and answers every request ends the download successfully whenever the
chunks reconstruct.  There are two ways: from a library that already has every chunk, so that
nothing is requested, and in memory, with one request at a time.
-/

namespace Etle

open Std (TreeMap TreeSet)

section

variable {prims : Primitives} {outputPath : PathBuf} {options : DownloadFileOptions}
  {outputDir : Option PathBuf} {peerAvailable : TreeSet UInt32}

/-- Nothing is missing when every index is completed. -/
theorem firstMissing_eq_none {manifest : Manifest} {completed : TreeSet UInt32}
    (all : ∀ entry ∈ manifest.chunks, entry.index ∈ completed) :
    firstMissing manifest completed = none := by
  unfold firstMissing
  split
  · rw [Option.map_eq_none_iff, List.find?_eq_none]
    intro entry member
    simpa using all entry member
  · rfl

/-- Announcing the completed chunks succeeds on a connection that takes everything. -/
theorem run_announceCompleted {connection : Connection} (open_ended : connection.sendLimit = none)
    (completed : TreeSet UInt32) :
    ∃ after, (announceCompleted completed).run connection = .ok () after := by
  unfold announceCompleted
  split
  · exact ⟨connection, rfl⟩
  · exact ⟨{ connection with sent := connection.sent ++ [.encoded (.have completed.toList)] },
      by simp [send, sendFrame, EStateM.run, open_ended]⟩

/-- A download goes on after its negotiation. -/
theorem fromPeerWith_of_negotiated (attempt : Attempt) {peer : ConnectedDownloadPeer}
    {connection rest : Connection} (connected : attempt.link.connected = .ok connection)
    (negotiated : (connectDownloadPeer prims attempt.link.secret options).run connection =
      .ok peer rest) (world : DownloadWorld) :
    fromPeerWith prims outputPath options attempt world =
      downloadFromPeer prims outputPath options attempt peer rest world := by
  simp only [fromPeerWith, connected, negotiated]

/-- A download whose loop ends goes on to the reconstruction. -/
theorem downloadFromPeer_of_loop {attempt : Attempt} {peer : ConnectedDownloadPeer}
    {connection rest : Connection} {world : DownloadWorld} {completed : TreeSet UInt32}
    {chunks : TreeMap UInt32 EncryptedChunk} {session final : LibrarySession} {loop : WindowLoop}
    (prepared : (prepareDownload prims options (outputParentDir outputPath) peer).run
      { disk := world.disk, active := none } = .ok (completed, chunks) session)
    (announced : (announceCompleted completed).run connection = .ok () rest)
    (looped : (downloadMissingChunksWindowed prims (outputParentDir outputPath)
      peer.availableChunks options.requestWindow).run
      (.initial peer.manifest completed chunks session options.requestWindow)
      attempt.windowEvents = some { loop, session := final, phase := .ended (.ok ()) }) :
    downloadFromPeer prims outputPath options attempt peer connection world =
      finishDownload prims outputPath peer attempt.decryption world.outputs loop final := by
  simp only [downloadFromPeer, prepared, announced, looped]

/-! ## From a library that has every chunk -/

/-- Entries that are recorded and verify are all resumed. -/
theorem resumableEntries_complete {disk : Disk} {state : ActiveDownloadLibraryState}
    {entries : List ChunkMeta}
    (recorded : ∀ entry ∈ entries, state.progress.hasChunk entry.index ∧
      chunkVerifies prims disk state.paths entry) :
    ∃ valid, resumableEntries prims disk state entries = .ok valid ∧
      valid.map Prod.fst = entries := by
  induction entries with
  | nil => exact ⟨[], rfl, rfl⟩
  | cons entry rest ih =>
      obtain ⟨later, found, same⟩ := ih fun other member => recorded other (.tail _ member)
      obtain ⟨marked, verifies⟩ := recorded entry (.head _)
      obtain ⟨data, stored, size, hash⟩ := chunkVerifies_iff.mp verifies
      refine ⟨(entry, ⟨entry.index, data⟩) :: later, ?_, by simp [same]⟩
      simp [resumableEntries, marked, hasChunk, readChunk, stored, size, hash, found, bind,
        Except.bind, pure, Except.pure]

/-- A share that only has chunk files and the progress over them. -/
def stockedDisk (shareId : ShareId) (entries : List ChunkMeta)
    (files : ChunkFile → Option Bytes) : Disk := fun _ =>
  { ShareDir.absent with
    present := true
    progress := .value (progressOver shareId entries)
    chunks := files }

theorem storedProgress_stockedDisk {paths : LibraryPaths} (entries : List ChunkMeta)
    (files : ChunkFile → Option Bytes) :
    storedProgress prims (stockedDisk paths.shareId entries files) paths true =
      .ok (progressOver paths.shareId entries) := by
  have read : readProgress (stockedDisk paths.shareId entries files) paths =
      .ok (progressOver paths.shareId entries) :=
    readProgress_of_value rfl (progressOver_spec _ entries).1
  simp only [storedProgress, read]
  rfl

/-- Preparing a download over such a share finds every chunk. -/
theorem run_prepareDownload_stocked {root : PathBuf} {paths : LibraryPaths}
    {peer : ConnectedDownloadPeer} {files : ChunkFile → Option Bytes}
    (withLibrary : options.libraryRoot = some root) (resumes : options.resume = true)
    (here : paths = { root, shareId := (descriptorFromManifest prims peer.manifest).shareId })
    (verified : ∀ entry ∈ peer.manifest.chunks,
      chunkVerifies prims (stockedDisk paths.shareId peer.manifest.chunks files) paths entry) :
    ∃ session library,
      (prepareDownload prims options outputDir peer).run
        { disk := stockedDisk paths.shareId peer.manifest.chunks files, active := none } =
          .ok (completedOver peer.manifest.chunks, ∅) session ∧
      session.active = some library ∧ library.Owned ∧
      (session.disk library.paths).chunks = files := by
  obtain ⟨error, failed, -⟩ | ⟨progress, opened, found, ran, dir⟩ :=
    run_initializeDownloadLibraryState prims root (descriptorFromManifest prims peer.manifest)
      peer.fileKey outputDir true (stockedDisk paths.shareId peer.manifest.chunks files) here
  · simp [storedProgress_stockedDisk] at failed
  · obtain rfl : progressOver paths.shareId peer.manifest.chunks = progress := by
      simpa [storedProgress_stockedDisk] using found
    obtain ⟨-, ordered, members⟩ := progressOver_spec paths.shareId peer.manifest.chunks
    have opening : (onDisk (initializeDownloadLibraryState prims (some root)
        (descriptorFromManifest prims peer.manifest) peer.fileKey outputDir true)).run
        { disk := stockedDisk paths.shareId peer.manifest.chunks files, active := none } = _ :=
      run_onDisk_ok ran
    have recorded : ∀ entry ∈ peer.manifest.chunks,
        (progressOver paths.shareId peer.manifest.chunks).hasChunk entry.index ∧
        chunkVerifies prims (Function.update (stockedDisk paths.shareId peer.manifest.chunks files)
          paths opened) paths entry := by
      intro entry member
      refine ⟨(DownloadProgress.hasChunk_iff ordered _).mpr ((members _).mpr
        (List.mem_map_of_mem member)), ?_⟩
      obtain ⟨data, stored, size, hash⟩ := chunkVerifies_iff.mp (verified entry member)
      exact chunkVerifies_iff.mpr ⟨data, by simpa [dir.chunks] using stored, size, hash⟩
    obtain ⟨valid, resumed, all⟩ := @resumableEntries_complete prims _
      ⟨paths, progressOver paths.shareId peer.manifest.chunks, 0⟩ _ recorded
    have loading := @run_loadResumableChunkIndexes_of_valid prims peer.manifest
      ⟨Function.update (stockedDisk paths.shareId peer.manifest.chunks files) paths opened,
        some ⟨paths, progressOver paths.shareId peer.manifest.chunks, 0⟩⟩ _ _ outputDir rfl resumed
    rw [all] at loading
    have prepared : (prepareDownload prims options outputDir peer).run
        { disk := stockedDisk paths.shareId peer.manifest.chunks files, active := none } =
        .ok (completedOver peer.manifest.chunks, ∅) (resumedSession outputDir
          ⟨Function.update (stockedDisk paths.shareId peer.manifest.chunks files) paths opened,
            some ⟨paths, progressOver paths.shareId peer.manifest.chunks, 0⟩⟩
          ⟨paths, progressOver paths.shareId peer.manifest.chunks, 0⟩ peer.manifest.chunks) := by
      simp [prepareDownload, withLibrary, resumes, opening, loading, -bind_pure_comp]
    refine ⟨_, _, prepared, rfl, (progressOver_spec _ peer.manifest.chunks).1, ?_⟩
    simpa [resumedSession, flushedDir, stockedDisk] using dir.chunks

/-- A turn of the inner loop passes over an entry that is completed or that the peer does not
have. -/
theorem step_of_needless {requestWindow window since : Nat} {entry : ChunkMeta}
    {rest : List ChunkMeta} {inFlight : TreeMap UInt32 ChunkMeta}
    {chunks : TreeMap UInt32 EncryptedChunk} {completed : TreeSet UInt32} (session : LibrarySession)
    (room : inFlight.size < window)
    (needless : entry.index ∈ completed ∨ entry.index ∉ peerAvailable) :
    (downloadMissingChunksWindowed prims outputDir peerAvailable requestWindow).step
        ⟨⟨entry :: rest, inFlight, window, since, chunks, completed⟩, session, .running⟩
        (.request none) =
      some ⟨⟨rest, inFlight, window, since, chunks, completed⟩, session, .running⟩ := by
  obtain known | unavailable := needless
  · simp [downloadMissingChunksWindowed, requestNext, WindowLoop.next, room, known]
  · simp [downloadMissingChunksWindowed, requestNext, WindowLoop.next, room,
      TreeSet.contains_eq_false_of_not_mem unavailable]

/-- A loop that has nothing in flight and nothing left to fetch ends. -/
theorem run_skips {requestWindow : Nat} {state : WindowedDownload}
    (running : state.phase = .running) (empty : state.loop.inFlight.isEmpty)
    (room : 0 < state.loop.activeRequestWindow)
    (needless : ∀ entry ∈ state.loop.todo,
      entry.index ∈ state.loop.completed ∨ entry.index ∉ peerAvailable) :
    ∃ events loop,
      (downloadMissingChunksWindowed prims outputDir peerAvailable requestWindow).run state events =
        some { loop, session := state.session, phase := .ended (.ok ()) } ∧
      loop.completed = state.loop.completed ∧ ∀ event ∈ events, ∀ elapsed,
        event ≠ .persist elapsed := by
  obtain ⟨⟨todo, inFlight, window, since, chunks, completed⟩, session, phase⟩ := state
  obtain rfl : phase = .running := running
  dsimp only at empty room needless
  have waiting : inFlight.size < window := by
    rw [TreeMap.isEmpty_eq_size_eq_zero, beq_iff_eq] at empty
    omega
  induction todo with
  | nil =>
      refine ⟨[.finish], _, ?_, rfl, by simp⟩
      simp [Machine.run_cons, downloadMissingChunksWindowed, finishLoop, WindowLoop.next, waiting,
        empty]
  | cons entry rest ih =>
      obtain ⟨events, loop, run, same, silent⟩ :=
        ih fun other member => needless other (.tail _ member)
      refine ⟨.request none :: events, loop, ?_, same,
        List.forall_mem_cons.mpr ⟨by simp, silent⟩⟩
      exact Machine.run_cons_eq_some.mpr
        ⟨_, step_of_needless session waiting (needless entry (.head _)), run⟩

/-- A library that reconstructs ends the download. -/
theorem finishFromLibrary_of_decrypted {peer : Manifest × SymmetricKey}
    {schedule : DecryptSchedule} {session : LibrarySession} {library : ActiveDownloadLibraryState}
    {written : Bytes} (active : session.active = some library) (owned : library.Owned)
    (decrypted : decryptLibraryChunksToFile prims session.disk library.paths peer.1 peer.2
      schedule = some (written, .ok ())) (outputs : PathBuf → Option Bytes) :
    ∃ after, finishFromLibrary prims outputPath peer schedule outputs session =
      some (.ok peer.1 after) := by
  obtain ⟨marked, completed, -⟩ :=
    markDownloadLibraryComplete_spec active owned (outputParentDir outputPath)
  simp [finishFromLibrary, active, activeDownloadState, decrypted, completed]

/-- The entries of a share that reconstructs verify wherever its chunk files are. -/
theorem chunkVerifies_stockedDisk {manifest : Manifest} {fileKey : SymmetricKey} {disk : Disk}
    {elsewhere : LibraryPaths} {schedule : DecryptSchedule} {written : Bytes}
    (decrypted : decryptLibraryChunksToFile prims disk elsewhere manifest fileKey schedule =
      some (written, .ok ())) (shareId : ShareId) (paths : LibraryPaths) :
    ∀ entry ∈ manifest.chunks, chunkVerifies prims
      (stockedDisk shareId manifest.chunks (disk elsewhere).chunks) paths entry := by
  intro entry member
  obtain ⟨chunk, decrypts⟩ := (decryptLibraryChunksToFile_ok decrypted).2 entry member
  obtain ⟨cipher, stored, size, hash, -⟩ := decryptLibraryChunk_eq_ok.mp decrypts
  exact chunkVerifies_iff.mpr ⟨cipher, stored, size, hash⟩

/-- An offer whose chunks a library already has is completed without a request. -/
theorem downloadFromPeer_of_library {peer : ConnectedDownloadPeer} {connection : Connection}
    {disk : Disk} {elsewhere : LibraryPaths} {schedule : DecryptSchedule} {written : Bytes}
    {root : PathBuf} (withLibrary : options.libraryRoot = some root)
    (resumes : options.resume = true) (open_ended : connection.sendLimit = none)
    (decrypted : decryptLibraryChunksToFile prims disk elsewhere peer.manifest peer.fileKey
      schedule = some (written, .ok ())) (link : PeerLink) :
    ∃ windowEvents after, (∀ event ∈ windowEvents, ∀ elapsed, event ≠ .persist elapsed) ∧
      downloadFromPeer prims outputPath options { link, windowEvents, decryption := schedule } peer
        connection {
          disk := stockedDisk (descriptorFromManifest prims peer.manifest).shareId
            peer.manifest.chunks (disk elsewhere).chunks
          outputs := fun _ => none } = some (.ok peer.manifest after) := by
  obtain ⟨session, library, prepared, active, owned, files⟩ :=
    @run_prepareDownload_stocked prims options (outputParentDir outputPath) root
      ⟨root, (descriptorFromManifest prims peer.manifest).shareId⟩ peer _ withLibrary resumes rfl
      (chunkVerifies_stockedDisk decrypted _ _)
  obtain ⟨_, announced⟩ := run_announceCompleted open_ended (completedOver peer.manifest.chunks)
  have all : ∀ entry ∈ peer.manifest.chunks, entry.index ∈ completedOver peer.manifest.chunks :=
    fun entry member => mem_completedOver.mpr (List.mem_map_of_mem member)
  obtain ⟨windowEvents, loop, looped, same, silent⟩ := @run_skips prims
    (outputParentDir outputPath) peer.availableChunks options.requestWindow (.initial peer.manifest
      (completedOver peer.manifest.chunks) ∅ session options.requestWindow) rfl rfl
    (by simp [WindowedDownload.initial, WindowLoop.initial, initialRequestWindow])
    (fun entry member => .inl (all entry member))
  have reconstructed : decryptLibraryChunksToFile prims session.disk library.paths peer.manifest
      peer.fileKey schedule = some (written, .ok ()) := by
    rw [decryptLibraryChunksToFile_congr files, decrypted]
  obtain ⟨after, finished⟩ := @finishFromLibrary_of_decrypted _ outputPath
    (peer.manifest, peer.fileKey) _ _ _ _ active owned reconstructed fun _ => none
  refine ⟨windowEvents, after, silent,
    (downloadFromPeer_of_loop prepared announced looped).trans ?_⟩
  have nothing : firstMissing peer.manifest loop.completed = none :=
    firstMissing_eq_none (by rw [same]; exact all)
  simp only [finishDownload, nothing]
  exact (if_pos (by simp [WindowedDownload.initial, active])).trans finished

/-! ## In memory, one request at a time -/

/-- Chunks that decrypt are there and have the hashes of their entries. -/
theorem bytesAt_of_decryptChunks {fileId : FileId} {content : TreeMap UInt32 EncryptedChunk}
    {fileKey : SymmetricKey} {entries : List ChunkMeta} {plain : List DecryptedChunk}
    (decrypted : decryptChunks prims fileId content fileKey entries = .ok plain) :
    ∀ entry ∈ entries, ∃ data, bytesAt content entry.index = some data ∧
      hashChunk prims data = entry.blake3Hash := by
  induction entries generalizing plain with
  | nil => simp
  | cons entry rest ih =>
      unfold decryptChunks at decrypted
      split at decrypted
      · cases decrypted
      · rename_i chunk found
        split at decrypted
        · cases decrypted
        · rename_i hash
          split at decrypted
          · cases decrypted
          · cases later : decryptChunks prims fileId content fileKey rest with
            | error failure => simp [later, bind, Except.bind] at decrypted
            | ok others =>
                intro other member
                obtain rfl | member := List.mem_cons.mp member
                · exact ⟨chunk.data, by simp [bytesAt, found], not_not.mp hash⟩
                · exact ih later other member

/-- Decryption looks only at the bytes of the entries. -/
theorem decryptChunks_congr {fileId : FileId} {content other : TreeMap UInt32 EncryptedChunk}
    {fileKey : SymmetricKey} {entries : List ChunkMeta}
    (same : ∀ entry ∈ entries, bytesAt other entry.index = bytesAt content entry.index) :
    decryptChunks prims fileId other fileKey entries =
      decryptChunks prims fileId content fileKey entries := by
  induction entries with
  | nil => rfl
  | cons entry rest ih =>
      have here := same entry (.head _)
      have later := ih fun other member => same other (.tail _ member)
      unfold bytesAt at here
      unfold decryptChunks
      cases left : other[entry.index]? with
      | none =>
          cases right : content[entry.index]? with
          | none => rfl
          | some chunk => simp [left, right] at here
      | some found =>
          cases right : content[entry.index]? with
          | none => simp [left, right] at here
          | some chunk =>
              have bytes : found.data = chunk.data := by simpa [left, right] using here
              simp only [bytes, later]

/-- One chunk is requested, received, verified and counted. -/
theorem run_fetch (disk : Disk) {entry : ChunkMeta} {rest : List ChunkMeta}
    {inFlight : TreeMap UInt32 ChunkMeta} {since : Nat} {chunks : TreeMap UInt32 EncryptedChunk}
    {completed : TreeSet UInt32} {data : Bytes} (empty : inFlight.isEmpty)
    (unknown : entry.index ∉ completed) (available : entry.index ∈ peerAvailable)
    (hash : hashChunk prims data = entry.blake3Hash) :
    (downloadMissingChunksWindowed prims outputDir peerAvailable 1).run
      ⟨⟨entry :: rest, inFlight, 1, since, chunks, completed⟩, ⟨disk, none⟩, .running⟩
      [.request none, .receive (some (.encoded (.chunk entry.index data))) 0, .persist false,
        .complete] =
    some ⟨⟨rest, (inFlight.insert entry.index entry).erase entry.index, 1, since + 1,
      chunks.insert entry.index ⟨entry.index, data⟩, completed.insert entry.index⟩,
      ⟨disk, none⟩, .running⟩ := by
  have waiting : inFlight.size = 0 := by simpa [TreeMap.isEmpty_eq_size_eq_zero] using empty
  have absent : entry.index ∉ inFlight := TreeMap.isEmpty_iff_forall_not_mem.mp empty entry.index
  have full : (inFlight.insert entry.index entry).size = 1 := by
    simp [TreeMap.size_insert, absent, waiting]
  have requested : requestNext peerAvailable
      ⟨⟨entry :: rest, inFlight, 1, since, chunks, completed⟩, ⟨disk, none⟩, .running⟩ none =
      some ⟨⟨rest, inFlight.insert entry.index entry, 1, since, chunks, completed⟩,
        ⟨disk, none⟩, .running⟩ := by
    have wanted : (completed.contains entry.index || !peerAvailable.contains entry.index) =
        false := by
      simp [TreeSet.contains_eq_false_of_not_mem unknown, available]
    simp [requestNext, WindowLoop.next, waiting, wanted]
  have received : receiveNext prims peerAvailable
      ⟨⟨rest, inFlight.insert entry.index entry, 1, since, chunks, completed⟩, ⟨disk, none⟩,
        .running⟩ (some (.encoded (.chunk entry.index data))) 0 =
      some ⟨⟨rest, inFlight.insert entry.index entry, 1, since, chunks, completed⟩,
        ⟨disk, none⟩, .received (.message (.chunk entry.index data)) none⟩ := by
    simp [receiveNext, WindowLoop.next, full, receiveFrame, WindowedDownload.streamingToLibrary]
  have persisted : persistNext prims outputDir
      ⟨⟨rest, inFlight.insert entry.index entry, 1, since, chunks, completed⟩, ⟨disk, none⟩,
        .received (.message (.chunk entry.index data)) none⟩ false =
      some ⟨⟨rest, (inFlight.insert entry.index entry).erase entry.index, 1, since, chunks,
        completed⟩, ⟨disk, none⟩, .persisted entry.index (some ⟨entry.index, data⟩)⟩ := by
    simp [persistNext, persistReply, discardTemp, takeInFlight, hash, persistDownloadedChunk]
  simp [Machine.run_cons, downloadMissingChunksWindowed, requested, received, persisted,
    completeNext, maybeGrowRequestWindow, WindowedDownload.streamingToLibrary]

/-- A loop without a library that requests one chunk at a time ends with the bytes it is given. -/
theorem run_fetches {content : TreeMap UInt32 EncryptedChunk} (disk : Disk)
    {todo : List ChunkMeta} {inFlight : TreeMap UInt32 ChunkMeta} {since : Nat}
    {chunks : TreeMap UInt32 EncryptedChunk} {completed : TreeSet UInt32}
    (empty : inFlight.isEmpty)
    (served : ∀ entry ∈ todo, entry.index ∈ peerAvailable ∧
      ∃ data, bytesAt content entry.index = some data ∧ hashChunk prims data = entry.blake3Hash)
    (kept : ∀ index ∈ completed, bytesAt chunks index = bytesAt content index) :
    ∃ events loop,
      (downloadMissingChunksWindowed prims outputDir peerAvailable 1).run
        { loop := ⟨todo, inFlight, 1, since, chunks, completed⟩
          session := ⟨disk, none⟩, phase := .running } events =
        some { loop, session := ⟨disk, none⟩, phase := .ended (.ok ()) } ∧
      (∀ entry ∈ todo, entry.index ∈ loop.completed) ∧
      (∀ index ∈ completed, index ∈ loop.completed) ∧
      ∀ index ∈ loop.completed, bytesAt loop.chunks index = bytesAt content index := by
  induction todo generalizing inFlight since chunks completed with
  | nil =>
      have waiting : inFlight.size = 0 := by simpa [TreeMap.isEmpty_eq_size_eq_zero] using empty
      refine ⟨[.finish], ⟨[], inFlight, 1, since, chunks, completed⟩, ?_, by simp,
        fun _ member => member, kept⟩
      simp [Machine.run_cons, downloadMissingChunksWindowed, finishLoop, WindowLoop.next, waiting,
        empty]
  | cons entry rest ih =>
      have waiting : inFlight.size = 0 := by simpa [TreeMap.isEmpty_eq_size_eq_zero] using empty
      have later := fun other member => served other (List.mem_cons_of_mem _ member)
      obtain ⟨available, data, here, hash⟩ := served entry (.head _)
      by_cases known : entry.index ∈ completed
      · obtain ⟨events, loop, run, all, grows, bytes⟩ := ih empty later kept
        refine ⟨.request none :: events, loop, ?_, ?_, grows, bytes⟩
        · simpa [Machine.run_cons, downloadMissingChunksWindowed, requestNext, WindowLoop.next,
            waiting, known] using run
        · exact List.forall_mem_cons.mpr ⟨grows _ known, all⟩
      · have emptied : ((inFlight.insert entry.index entry).erase entry.index).isEmpty := by
          apply TreeMap.isEmpty_iff_forall_not_mem.mpr
          intro index member
          have absent := TreeMap.isEmpty_iff_forall_not_mem.mp empty index
          simp only [TreeMap.mem_erase, TreeMap.mem_insert] at member
          tauto
        have stored : ∀ index ∈ completed.insert entry.index,
            bytesAt (chunks.insert entry.index ⟨entry.index, data⟩) index =
              bytesAt content index := by
          intro index member
          by_cases same : entry.index = index
          · subst same
            simp [bytesAt, ← here]
          · have earlier : index ∈ completed := by
              simpa [TreeSet.mem_insert, Std.LawfulEqCmp.compare_eq_iff_eq, same] using member
            rw [← kept index earlier]
            simp [bytesAt, TreeMap.getElem?_insert, same]
        obtain ⟨events, loop, run, all, grows, bytes⟩ := @ih _ (since + 1) _ _ emptied later stored
        refine ⟨[.request none, .receive (some (.encoded (.chunk entry.index data))) 0,
          .persist false, .complete] ++ events, loop, ?_, ?_, ?_, bytes⟩
        · rw [Machine.run_append, run_fetch disk empty known available hash]
          exact run
        · exact List.forall_mem_cons.mpr ⟨grows _ (by simp), all⟩
        · exact fun index member => grows index (by simp [member])

/-- An offer whose chunks decrypt in memory is completed by a peer that sends them. -/
theorem downloadFromPeer_of_memory {peer : ConnectedDownloadPeer} {connection : Connection}
    {content : TreeMap UInt32 EncryptedChunk} {written : Bytes}
    (inMemory : options.libraryRoot = none) (oneByOne : options.requestWindow = 1)
    (available : ∀ index ∈ peer.manifest.indices, index ∈ peer.availableChunks)
    (decrypted : decryptToBytes prims peer.manifest content peer.fileKey = .ok written)
    (link : PeerLink) (schedule : DecryptSchedule) :
    ∃ windowEvents world after,
      downloadFromPeer prims outputPath options { link, windowEvents, decryption := schedule } peer
        connection world = some (.ok peer.manifest after) := by
  obtain ⟨plain, opened⟩ : ∃ plain, decryptChunks prims peer.manifest.fileId content peer.fileKey
      peer.manifest.chunks = .ok plain := by
    cases opened : decryptChunks prims peer.manifest.fileId content peer.fileKey
        peer.manifest.chunks with
    | error failure => simp [decryptToBytes, opened, bind, Except.bind] at decrypted
    | ok plain => exact ⟨plain, rfl⟩
  have served : ∀ entry ∈ peer.manifest.chunks, entry.index ∈ peer.availableChunks ∧
      ∃ data, bytesAt content entry.index = some data ∧ hashChunk prims data = entry.blake3Hash :=
    fun entry member => ⟨available _ (List.mem_map_of_mem member),
      bytesAt_of_decryptChunks opened entry member⟩
  obtain ⟨windowEvents, loop, looped, all, -, bytes⟩ :=
    @run_fetches prims (outputParentDir outputPath) peer.availableChunks content (fun _ => .absent)
      peer.manifest.chunks ∅ 0 ∅ ∅ (by simp) served (by simp)
  have prepared : (prepareDownload prims options (outputParentDir outputPath) peer).run
      { disk := fun _ => .absent, active := none } =
      .ok (∅, ∅) { disk := fun _ => .absent, active := none } := by
    have opening : (onDisk (initializeDownloadLibraryState prims none
        (descriptorFromManifest prims peer.manifest) peer.fileKey (outputParentDir outputPath)
        options.resume)).run { disk := fun _ => .absent, active := none } =
        .ok none { disk := fun _ => .absent, active := none } := rfl
    simp only [prepareDownload, inMemory, EStateM.run_bind, opening]
    rfl
  have announced : (announceCompleted ∅).run connection = .ok () connection := rfl
  have same : decryptToBytes prims peer.manifest loop.chunks peer.fileKey = .ok written := by
    rw [← decrypted, decryptToBytes, decryptToBytes,
      decryptChunks_congr fun entry member => bytes _ (all entry member)]
  obtain ⟨after, finished⟩ : ∃ after, finishDownload prims outputPath peer schedule (fun _ => none)
      loop { disk := fun _ => .absent, active := none } = some (.ok peer.manifest after) := by
    simp [finishDownload, firstMissing_eq_none all, finishFromMemory, same]
  exact ⟨windowEvents, ⟨fun _ => .absent, fun _ => none⟩, after,
    (downloadFromPeer_of_loop prepared announced (by rw [oneByOne]; exact looped)).trans finished⟩

end

end Etle
