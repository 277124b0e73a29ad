import Etle.Transfer.ParallelDownload
import Etle.Transfer.WindowLoop

/-!
# What receiving and storing a chunk changes

A receive touches nothing but its temporary file.  A store that succeeds has put verified bytes
into the final place of the chunk and recorded it; one that fails has touched nothing but the
temporary file.
-/

namespace Etle

open Std (TreeMap)

/-- Two disks differ at most in one temporary file. -/
structure OnlyTemp (temp : TempPath) (before after : Disk) : Prop where
  descriptor : ∀ paths, (after paths).descriptor = (before paths).descriptor
  secret : ∀ paths, (after paths).secret = (before paths).secret
  progress : ∀ paths, (after paths).progress = (before paths).progress
  state : ∀ paths, (after paths).state = (before paths).state
  others : ∀ paths, paths ≠ temp.paths → after paths = before paths
  files : ∀ file, file ≠ .part temp.index temp.suffix →
    (after temp.paths).chunks file = (before temp.paths).chunks file

theorem OnlyTemp.refl (temp : TempPath) (disk : Disk) : OnlyTemp temp disk disk :=
  ⟨fun _ => rfl, fun _ => rfl, fun _ => rfl, fun _ => rfl, fun _ _ => rfl, fun _ _ => rfl⟩

/-- Setting the content of a temporary file changes only that file. -/
theorem onlyTemp_update (temp : TempPath) (disk : Disk) (present : Bool)
    (content : Option Bytes) :
    OnlyTemp temp disk (Function.update disk temp.paths
      { disk temp.paths with
        present
        chunks := Function.update (disk temp.paths).chunks (.part temp.index temp.suffix)
          content }) := by
  refine ⟨?_, ?_, ?_, ?_, ?_, ?_⟩
  · intro paths
    by_cases same : paths = temp.paths <;> simp [same]
  · intro paths
    by_cases same : paths = temp.paths <;> simp [same]
  · intro paths
    by_cases same : paths = temp.paths <;> simp [same]
  · intro paths
    by_cases same : paths = temp.paths <;> simp [same]
  · intro paths different
    simp [different]
  · intro file different
    simp [different]

/-- Final chunk files are not temporary files. -/
theorem OnlyTemp.chunk {temp : TempPath} {before after : Disk} (only : OnlyTemp temp before after)
    (paths : LibraryPaths) (index : UInt32) :
    (after paths).chunks (.chunk index) = (before paths).chunks (.chunk index) := by
  by_cases same : paths = temp.paths
  · subst same
    exact only.files _ (by simp)
  · rw [only.others paths same]

/-- A raw chunk that has arrived is in its temporary file and has the reported hash. -/
def Arrived (prims : Primitives) (disk : Disk) (temp : TempPath) : ReceivedChunkFrame → Prop
  | .rawChunkFile _ _ blake3Hash =>
      ∃ data, (disk temp.paths).chunks (.part temp.index temp.suffix) = some data ∧
        prims.blake3 data = blake3Hash
  | .message _ => True

/-- Another temporary file leaves an arrived chunk where it is. -/
theorem Arrived.of_files {prims : Primitives} {before after : Disk} {temp : TempPath}
    {frame : ReceivedChunkFrame} (arrived : Arrived prims before temp frame)
    (file : (after temp.paths).chunks (.part temp.index temp.suffix) =
      (before temp.paths).chunks (.part temp.index temp.suffix)) :
    Arrived prims after temp frame := by
  cases frame with
  | message message => trivial
  | rawChunkFile index dataLen blake3Hash =>
      obtain ⟨data, stored, hash⟩ := arrived
      exact ⟨data, file.trans stored, hash⟩

section

variable {prims : Primitives} {session after : LibrarySession} {temp : TempPath}

/-- A receive changes only its temporary file, and the frame it reports has arrived there. -/
theorem receiveChunkToFile_ok {frames rest : List Frame} {frame : ReceivedChunkFrame}
    (received : (receiveChunkToFile prims temp frames).run session = .ok (frame, rest) after) :
    after.active = session.active ∧ OnlyTemp temp session.disk after.disk ∧
      Arrived prims after.disk temp frame := by
  cases frames with
  | nil => simp [receiveChunkToFile] at received
  | cons head tail =>
      cases head with
      | encoded message =>
          obtain ⟨⟨rfl, -⟩, rfl⟩ :
              (.message message = frame ∧ tail = rest) ∧ session = after := by
            simpa [receiveChunkToFile] using received
          exact ⟨rfl, .refl temp session.disk, trivial⟩
      | raw index data =>
          have written : (onDisk (writeFile temp.paths (.part temp.index temp.suffix) data)).run
              session = _ := run_onDisk_ok rfl
          simp only [receiveChunkToFile, EStateM.run_bind, written, EStateM.run_pure,
            EStateM.Result.ok.injEq, Prod.mk.injEq] at received
          obtain ⟨⟨rfl, -⟩, rfl⟩ := received
          exact ⟨rfl, onlyTemp_update temp session.disk true (some data), data, by simp, rfl⟩
      | cut index data =>
          have written : (onDisk (writeFile temp.paths (.part temp.index temp.suffix) data)).run
              session = _ := run_onDisk_ok rfl
          simp [receiveChunkToFile, written, -bind_pure_comp] at received
      | invalid error => simp [receiveChunkToFile] at received

theorem receiveChunkToFile_error {frames : List Frame} {error : NetworkError}
    (failed : (receiveChunkToFile prims temp frames).run session = .error error after) :
    after.active = session.active ∧ OnlyTemp temp session.disk after.disk := by
  cases frames with
  | nil =>
      obtain ⟨-, rfl⟩ : .protocol (.io .unexpectedEof) = error ∧ session = after := by
        simpa [receiveChunkToFile] using failed
      exact ⟨rfl, .refl temp session.disk⟩
  | cons head tail =>
      cases head with
      | encoded message => simp [receiveChunkToFile] at failed
      | raw index data =>
          have written : (onDisk (writeFile temp.paths (.part temp.index temp.suffix) data)).run
              session = _ := run_onDisk_ok rfl
          simp [receiveChunkToFile, written, -bind_pure_comp] at failed
      | cut index data =>
          have written : (onDisk (writeFile temp.paths (.part temp.index temp.suffix) data)).run
              session = _ := run_onDisk_ok rfl
          simp only [receiveChunkToFile, EStateM.run_bind, written, EStateM.run_throw_eq,
            EStateM.Result.error.injEq] at failed
          obtain ⟨-, rfl⟩ := failed
          exact ⟨rfl, onlyTemp_update temp session.disk true (some data)⟩
      | invalid cause =>
          obtain ⟨-, rfl⟩ : .protocol cause = error ∧ session = after := by
            simpa [receiveChunkToFile] using failed
          exact ⟨rfl, .refl temp session.disk⟩

theorem run_removeFileIfExists (temp : TempPath) (session : LibrarySession) :
    ∃ disk, (onDisk (removeFileIfExists temp)).run session = .ok () { session with disk } ∧
      OnlyTemp temp session.disk disk :=
  ⟨_, run_onDisk_ok rfl, onlyTemp_update temp session.disk _ none⟩

/-- A chunk has been stored: verified bytes are in its final place, it is recorded, and no other
file has changed except the temporary one. -/
def StoredChunk (prims : Primitives) (library : ActiveDownloadLibraryState) (entry : ChunkMeta)
    (index : UInt32) (outputDir : Option PathBuf) (temp : TempPath)
    (before after : LibrarySession) : Prop :=
  ∃ files data, Recorded library index outputDir files before after ∧
    hashChunk prims data = entry.blake3Hash ∧ files (.chunk index) = some data ∧
    ∀ file, file ≠ .chunk index → file ≠ .part temp.index temp.suffix →
      files file = (before.disk library.paths).chunks file

/-- What is recorded after only a temporary file has changed is recorded altogether. -/
theorem Recorded.of_onlyTemp {library : ActiveDownloadLibraryState} {index : UInt32}
    {outputDir : Option PathBuf} {files : ChunkFile → Option Bytes} {disk : Disk}
    (same : temp.paths = library.paths) (only : OnlyTemp temp session.disk disk)
    (recorded : Recorded library index outputDir files { session with disk } after) :
    Recorded library index outputDir files session after := by
  refine ⟨recorded.files, ?_, ?_, ?_, ?_⟩
  · exact recorded.descriptor.trans (only.descriptor _)
  · exact recorded.secret.trans (only.secret _)
  · intro other different
    rw [recorded.others other different]
    exact only.others other (by rw [same]; exact different)
  · simpa only [only.progress, only.state] using recorded.records

section

variable {library : ActiveDownloadLibraryState} {entry : ChunkMeta} {index : UInt32}
  (outputDir : Option PathBuf) (elapsed : Bool) (active : session.active = some library)
  (owned : library.Owned) (same : temp.paths = library.paths)

include active owned same

/-- Moving an arrived raw chunk with the right hash into the library stores it. -/
theorem storedChunk_of_raw {blake3Hash : Bytes32} {dataLen : Nat}
    (arrived : Arrived prims session.disk temp (.rawChunkFile index dataLen blake3Hash))
    (hash : blake3Hash = entry.blake3Hash.bytes) :
    ∃ after, (persistDownloadedChunkFile index temp outputDir elapsed).run session =
        .ok () after ∧ StoredChunk prims library entry index outputDir temp session after := by
  obtain ⟨data, stored, reported⟩ := arrived
  rw [same] at stored
  obtain ⟨after, persisted, recorded⟩ :=
    persistDownloadedChunkFile_spec active owned same stored index outputDir elapsed
  refine ⟨after, persisted, _, data, recorded, ?_, by simp, ?_⟩
  · simp [hashChunk, reported, hash]
  · intro file not_chunk not_temp
    simp [not_chunk, not_temp]

/-- Writing a chunk message with the right hash into the library stores it. -/
theorem storedChunk_of_message {data : Bytes} {disk : Disk}
    (only : OnlyTemp temp session.disk disk) (hash : hashChunk prims data = entry.blake3Hash) :
    ∃ after, (persistDownloadedChunk { index, data } outputDir elapsed).run
        { session with disk } = .ok () after ∧
      StoredChunk prims library entry index outputDir temp session after := by
  have still_active : ({ session with disk } : LibrarySession).active = some library := active
  obtain ⟨after, persisted, recorded⟩ :=
    persistDownloadedChunk_spec still_active owned { index, data } outputDir elapsed
  refine ⟨after, persisted, _, data, recorded.of_onlyTemp same only, hash, by simp, ?_⟩
  intro file not_chunk not_temp
  rw [← same]
  simpa [not_chunk] using only.files file not_temp

/-- A worker's store succeeds with a stored chunk, or fails having touched at most the temporary
file. -/
theorem storeReceivedChunk_spec (entry : ChunkMeta) {frame : ReceivedChunkFrame}
    (arrived : Arrived prims session.disk temp frame) :
    (∃ length after, (storeReceivedChunk prims outputDir entry temp elapsed frame).run session =
        .ok length after ∧
      StoredChunk prims library entry entry.index outputDir temp session after) ∨
    (∃ error disk, (storeReceivedChunk prims outputDir entry temp elapsed frame).run session =
        .error error { session with disk } ∧ OnlyTemp temp session.disk disk) := by
  obtain ⟨disk, removed, only⟩ := run_removeFileIfExists temp session
  cases frame with
  | rawChunkFile index dataLen blake3Hash =>
      by_cases expected : index = entry.index
      · subst expected
        by_cases hash : blake3Hash = entry.blake3Hash.bytes
        · obtain ⟨after, persisted, stored⟩ :=
            storedChunk_of_raw outputDir elapsed active owned same arrived hash
          exact .inl ⟨dataLen, after,
            by simp [storeReceivedChunk, hash, persisted, -bind_pure_comp], stored⟩
        · exact .inr ⟨_, disk, by simp [storeReceivedChunk, hash, removed]; rfl, only⟩
      · exact .inr ⟨_, disk, by simp [storeReceivedChunk, expected, removed]; rfl, only⟩
  | message message =>
      cases message with
      | chunk index data =>
          by_cases expected : index = entry.index
          · subst expected
            by_cases hash : hashChunk prims data = entry.blake3Hash
            · obtain ⟨after, persisted, stored⟩ :=
                storedChunk_of_message outputDir elapsed active owned same only hash
              exact .inl ⟨data.length, after,
                by simp [storeReceivedChunk, hash, removed, persisted, -bind_pure_comp], stored⟩
            · exact .inr ⟨_, disk, by simp [storeReceivedChunk, hash, removed]; rfl, only⟩
          · exact .inr ⟨_, disk, by simp [storeReceivedChunk, expected, removed]; rfl, only⟩
      | error text => exact .inr ⟨_, disk, by simp [storeReceivedChunk, removed]; rfl, only⟩
      | hello | capabilities | keyExchange | authProof | requestManifest | requestShare | manifest
      | wrappedFileKey | «have» | requestChunk =>
          exact .inr ⟨_, disk, by simp [storeReceivedChunk, removed]; rfl, only⟩

/-- The loop's store succeeds with a stored chunk that was in flight, or fails having touched at
most the temporary file. -/
theorem persistReply_spec (inFlight : TreeMap UInt32 ChunkMeta) {frame : ReceivedChunkFrame}
    (arrived : Arrived prims session.disk temp frame) :
    (∃ index chunk entry after,
      (persistReply prims outputDir inFlight elapsed frame (some temp)).run session =
          .ok (index, chunk) after ∧ inFlight[index]? = some entry ∧
        StoredChunk prims library entry index outputDir temp session after) ∨
    (∃ error disk, (persistReply prims outputDir inFlight elapsed frame (some temp)).run session =
        .error error { session with disk } ∧ OnlyTemp temp session.disk disk) := by
  obtain ⟨disk, removed, only⟩ := run_removeFileIfExists temp session
  cases frame with
  | rawChunkFile index dataLen blake3Hash =>
      cases flying : inFlight[index]? with
      | none =>
          refine .inr ⟨.unexpectedChunkIndex (inFlight.minKey?.getD index) index, session.disk, ?_,
            .refl temp session.disk⟩
          simp [persistReply, takeInFlight, flying, -bind_pure_comp]
      | some entry =>
          by_cases hash : blake3Hash = entry.blake3Hash.bytes
          · obtain ⟨after, persisted, stored⟩ :=
              storedChunk_of_raw outputDir elapsed active owned same arrived hash
            refine .inl ⟨index, none, entry, after, ?_, flying, stored⟩
            simp [persistReply, takeInFlight, flying, hash, persisted, -bind_pure_comp]
          · refine .inr ⟨.file (.chunkHashMismatch entry.index), disk, ?_, only⟩
            simp [persistReply, takeInFlight, flying, hash, removed]
  | message message =>
      cases message with
      | chunk index data =>
          cases flying : inFlight[index]? with
          | none =>
              refine .inr ⟨.unexpectedChunkIndex (inFlight.minKey?.getD index) index, disk, ?_,
                only⟩
              simp [persistReply, discardTemp, takeInFlight, flying, removed, -bind_pure_comp]
          | some entry =>
              by_cases hash : hashChunk prims data = entry.blake3Hash
              · obtain ⟨after, persisted, stored⟩ :=
                  storedChunk_of_message outputDir elapsed active owned same only hash
                refine .inl ⟨index, some { index, data }, entry, after, ?_, flying, stored⟩
                simp [persistReply, discardTemp, takeInFlight, flying, hash, removed, persisted,
                  -bind_pure_comp]
              · refine .inr ⟨.file (.chunkHashMismatch entry.index), disk, ?_, only⟩
                simp [persistReply, discardTemp, takeInFlight, flying, hash, removed]
      | error text =>
          exact .inr ⟨_, disk, by simp [persistReply, discardTemp, removed]; rfl, only⟩
      | hello | capabilities | keyExchange | authProof | requestManifest | requestShare | manifest
      | wrappedFileKey | «have» | requestChunk =>
          exact .inr ⟨_, disk, by simp [persistReply, discardTemp, removed]; rfl, only⟩

end

/-- The loop's store keeps what removing and moving its temporary file and writing a chunk keep. -/
theorem keeps_persistReply {property : LibrarySession → Prop} {outputDir : Option PathBuf}
    {elapsed : Bool} {temp : Option TempPath}
    (removes : ∀ path, temp = some path → EStateM.Keeps property (onDisk (removeFileIfExists path)))
    (moves : ∀ path index, temp = some path →
      EStateM.Keeps property (persistDownloadedChunkFile index path outputDir elapsed))
    (writes : ∀ chunk, EStateM.Keeps property (persistDownloadedChunk chunk outputDir elapsed))
    (inFlight : TreeMap UInt32 ChunkMeta) (frame : ReceivedChunkFrame) :
    EStateM.Keeps property (persistReply prims outputDir inFlight elapsed frame temp) := by
  have discarded : EStateM.Keeps property (discardTemp temp) := by
    cases temp with
    | none => exact .pure ()
    | some path => exact removes path rfl
  cases frame with
  | rawChunkFile index dataLen blake3Hash =>
      cases temp with
      | none => exact .throw _
      | some path =>
          refine .bind (.liftExcept _ _) fun entry => ?_
          split
          · exact .bind (removes path rfl) fun _ => .throw _
          · exact .bind (moves path index rfl) fun _ => .pure _
  | message message =>
      cases message with
      | chunk index data =>
          refine .bind discarded fun _ => .bind (.liftExcept _ _) fun entry => ?_
          split
          · exact .throw _
          · exact .bind (writes _) fun _ => .pure _
      | hello | capabilities | keyExchange | authProof | requestManifest | requestShare | manifest
      | wrappedFileKey | «have» | requestChunk | error =>
          exact .bind discarded fun _ => .throw _

theorem active_of_discardTemp {temp : Option TempPath}
    (discarded : (discardTemp temp).run session = .ok () after) :
    after.active = session.active := by
  cases temp with
  | none =>
      obtain rfl : session = after := by simpa [discardTemp] using discarded
      rfl
  | some temp =>
      obtain ⟨disk, removed, -⟩ := run_removeFileIfExists temp session
      obtain rfl : { session with disk } = after := by simpa [discardTemp, removed] using discarded
      rfl

/-- The loop's store succeeds for an index in flight, by persisting its file or its message. -/
theorem persistReply_eq_ok {outputDir : Option PathBuf} {inFlight : TreeMap UInt32 ChunkMeta}
    {elapsed : Bool} {frame : ReceivedChunkFrame} {temp : Option TempPath} {index : UInt32}
    {chunk : Option EncryptedChunk}
    (persisted : (persistReply prims outputDir inFlight elapsed frame temp).run session =
      .ok (index, chunk) after) :
    ∃ entry current, takeInFlight inFlight index = .ok entry ∧
      current.active = session.active ∧
      ((∃ path, (persistDownloadedChunkFile index path outputDir elapsed).run current =
        .ok () after) ∨
        ∃ data, (persistDownloadedChunk { index, data } outputDir elapsed).run current =
          .ok () after) := by
  cases frame with
  | rawChunkFile found dataLen blake3Hash =>
      cases temp with
      | none => simp [persistReply] at persisted
      | some path =>
          simp only [persistReply, EStateM.run_bind_eq_ok, EStateM.run_liftExcept_eq_ok]
            at persisted
          obtain ⟨entry, state, ⟨flying, rfl⟩, stored⟩ := persisted
          split at stored
          · simp [EStateM.run_bind_eq_ok, -EStateM.run_bind] at stored
          · simp only [EStateM.run_bind_eq_ok] at stored
            obtain ⟨_, final, moved, returned⟩ := stored
            obtain ⟨⟨rfl, -⟩, rfl⟩ : (found = index ∧ none = chunk) ∧ final = after := by
              simpa using returned
            exact ⟨entry, state, flying, rfl, .inl ⟨path, moved⟩⟩
  | message message =>
      cases message with
      | chunk found data =>
          simp only [persistReply, EStateM.run_bind_eq_ok, EStateM.run_liftExcept_eq_ok]
            at persisted
          obtain ⟨_, _, removed, entry, state, ⟨flying, rfl⟩, stored⟩ := persisted
          split at stored
          · simp at stored
          · simp only [EStateM.run_bind_eq_ok] at stored
            obtain ⟨_, final, moved, returned⟩ := stored
            obtain ⟨⟨rfl, -⟩, rfl⟩ : (found = index ∧ _ = chunk) ∧ final = after := by
              simpa using returned
            exact ⟨entry, state, flying, active_of_discardTemp removed, .inr ⟨data, moved⟩⟩
      | hello | capabilities | keyExchange | authProof | requestManifest | requestShare | manifest
      | wrappedFileKey | «have» | requestChunk | error =>
          simp [persistReply, EStateM.run_bind_eq_ok, -EStateM.run_bind] at persisted

end

end Etle
