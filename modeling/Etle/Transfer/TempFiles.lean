import Etle.Transfer.ParallelScheduling
import Etle.Transfer.WindowMoves

/-!
# Temporary chunk files

A raw chunk is received into a temporary file, which every way of handling the received frame should
remove or rename.  Storing a frame always does, except for the frame of a windowed download that
answers no request; receiving one does not when the connection closes inside the chunk.
-/

namespace Etle

open Std (TreeMap TreeSet)

open EStateM (Keeps Establishes)

/-- There is no temporary file of this name on disk. -/
def Gone (temp : TempPath) (disk : Disk) : Prop :=
  (disk temp.paths).chunks (.part temp.index temp.suffix) = none

/-- Receiving this reply creates a temporary file. -/
def createsFile : Option Frame → Bool
  | some (.raw _ _) | some (.cut _ _) => true
  | _ => false

/-- The connection closes inside the data of a raw chunk. -/
def isCut : Option Frame → Bool
  | some (.cut _ _) => true
  | _ => false

/-! ## What the operations do to a temporary file -/

section

variable {temp : TempPath} {paths : LibraryPaths}

/-- A change of a share directory that adds no temporary file keeps one away. -/
theorem keeps_gone_changeShare {change : ShareDir → ShareDir}
    (adds_none : ∀ dir, (change dir).chunks (.part temp.index temp.suffix) = none ∨
      (change dir).chunks (.part temp.index temp.suffix) =
        dir.chunks (.part temp.index temp.suffix)) :
    Keeps (Gone temp) (changeShare paths change) := by
  intro disk gone
  change Gone temp (Function.update disk paths (change (disk paths)))
  by_cases same : temp.paths = paths
  · subst same
    obtain none_there | kept := adds_none (disk temp.paths)
    · simpa [Gone] using none_there
    · simpa [Gone, kept] using gone
  · simpa [Gone, Function.update_of_ne same] using gone

theorem keeps_gone_createShareDirs : Keeps (Gone temp) (createShareDirs paths) :=
  keeps_gone_changeShare fun _ => .inr rfl

theorem keeps_gone_writeChunk (chunk : EncryptedChunk) :
    Keeps (Gone temp) (writeChunk paths chunk) :=
  keeps_gone_changeShare fun _ => .inr (by simp)

theorem keeps_gone_removeFile (file : ChunkFile) : Keeps (Gone temp) (removeFile paths file) := by
  refine keeps_gone_changeShare fun dir => ?_
  by_cases same : file = .part temp.index temp.suffix
  · exact .inl (by simp [same])
  · exact .inr (by simp [Ne.symm same])

theorem keeps_gone_writeRecords (mode : ShareMode) (outputDir : Option PathBuf)
    (progress : DownloadProgress) :
    Keeps (Gone temp) (writeRecords paths mode outputDir progress) := by
  unfold writeRecords writeProgress writeState
  refine Keeps.bind ((Keeps.liftExcept _ _).bind fun _ => ?_)
    fun _ => (Keeps.liftExcept _ _).bind fun _ => ?_
  · exact keeps_gone_changeShare fun _ => .inr rfl
  · exact keeps_gone_changeShare fun _ => .inr rfl

/-- Removing the file leaves no file. -/
theorem establishes_gone_removeFileIfExists (temp : TempPath) :
    Establishes (Gone temp) (removeFileIfExists temp) := by
  intro disk
  change Gone temp (Function.update disk temp.paths _)
  simp [Gone]

/-- Renaming the file leaves no file under its old name, also when there was none to rename. -/
theorem establishes_gone_renameToChunk (temp : TempPath) (paths : LibraryPaths) (index : UInt32) :
    Establishes (Gone temp) (renameToChunk temp paths index) := by
  unfold renameToChunk
  refine Establishes.after (fun disk => ⟨(), _, rfl⟩) fun _ => ?_
  intro disk
  rw [EStateM.run_get_bind]
  cases there : (disk temp.paths).chunks (.part temp.index temp.suffix) with
  | none => exact there
  | some data =>
      refine Establishes.bind (establishes_gone_removeFileIfExists temp) (fun _ => ?_) disk
      exact keeps_gone_changeShare fun _ => .inr (by simp)

/-- Renaming a file adds no temporary file. -/
theorem keeps_gone_renameToChunk (other : TempPath) (paths : LibraryPaths) (index : UInt32) :
    Keeps (Gone temp) (renameToChunk other paths index) := by
  unfold renameToChunk
  refine (keeps_gone_removeFile _).bind fun _ => ?_
  intro disk gone
  rw [EStateM.run_get_bind]
  cases (disk other.paths).chunks (.part other.index other.suffix) with
  | none => exact gone
  | some data =>
      refine Keeps.bind (keeps_gone_removeFile _) (fun _ => ?_) disk gone
      exact keeps_gone_changeShare fun _ => .inr (by simp)

/-! ## On the library side -/

/-- There is no temporary file of this name in the library. -/
abbrev GoneFrom (temp : TempPath) (session : LibrarySession) : Prop := Gone temp session.disk

theorem keeps_goneFrom_onDisk {α : Type} {operation : OnDisk α}
    (keeps : Keeps (Gone temp) operation) : Keeps (GoneFrom temp) (onDisk operation) :=
  keeps.zoom fun _ _ => rfl

theorem establishes_goneFrom_onDisk {α : Type} {operation : OnDisk α}
    (establishes : Establishes (Gone temp) operation) :
    Establishes (GoneFrom temp) (onDisk operation) :=
  establishes.zoom fun _ _ => rfl

/-- Changing the handle does not touch the disk. -/
theorem keeps_goneFrom_setActive (active : Option ActiveDownloadLibraryState) :
    Keeps (GoneFrom temp) (modify fun session : LibrarySession => { session with active } :
      OnLibrary Unit) :=
  fun _ gone => gone

theorem keeps_goneFrom_recordChunk (index : UInt32) (outputDir : Option PathBuf) (elapsed : Bool)
    (state : ActiveDownloadLibraryState) :
    Keeps (GoneFrom temp) (recordChunk index outputDir elapsed state) := by
  unfold recordChunk flushDownloadProgress
  refine (keeps_goneFrom_setActive _).bind fun _ => ?_
  split
  · exact (keeps_goneFrom_onDisk (keeps_gone_writeRecords _ _ _)).bind fun _ =>
      keeps_goneFrom_setActive _
  · exact Keeps.pure _

theorem keeps_goneFrom_persistDownloadedChunk (chunk : EncryptedChunk)
    (outputDir : Option PathBuf) (elapsed : Bool) :
    Keeps (GoneFrom temp) (persistDownloadedChunk chunk outputDir elapsed) := by
  intro session gone
  rw [persistDownloadedChunk, EStateM.run_get_bind]
  cases session.active with
  | none => exact gone
  | some state =>
      exact ((keeps_goneFrom_onDisk (keeps_gone_writeChunk chunk)).bind fun _ =>
        keeps_goneFrom_recordChunk _ _ _ _) session gone

/-- Moving a temporary file into the library leaves none, whatever happens. -/
theorem establishes_goneFrom_persistDownloadedChunkFile (index : UInt32) (temp : TempPath)
    (outputDir : Option PathBuf) (elapsed : Bool) :
    Establishes (GoneFrom temp) (persistDownloadedChunkFile index temp outputDir elapsed) := by
  intro session
  rw [persistDownloadedChunkFile, EStateM.run_get_bind]
  cases session.active with
  | none => exact establishes_goneFrom_onDisk (establishes_gone_removeFileIfExists temp) session
  | some state =>
      have created (before : LibrarySession) : ∃ value next,
          (onDisk (createShareDirs state.paths)).run before = .ok value next :=
        ⟨(), _, run_onDisk_ok (show (createShareDirs state.paths).run before.disk = .ok () _ from
          rfl)⟩
      have moved := establishes_goneFrom_onDisk
        (establishes_gone_renameToChunk temp state.paths index)
      exact (Establishes.after created fun _ => moved.bind fun _ =>
        keeps_goneFrom_recordChunk index outputDir elapsed state) session

/-- A worker that stores what it has received leaves no temporary file. -/
theorem establishes_goneFrom_storeReceivedChunk (prims : Primitives) (outputDir : Option PathBuf)
    (entry : ChunkMeta) (temp : TempPath) (elapsed : Bool) (frame : ReceivedChunkFrame) :
    Establishes (GoneFrom temp) (storeReceivedChunk prims outputDir entry temp elapsed frame) := by
  have removed := establishes_goneFrom_onDisk (establishes_gone_removeFileIfExists temp)
  cases frame with
  | rawChunkFile index dataLen blake3Hash =>
      rw [storeReceivedChunk]
      split
      · exact removed.bind fun _ => Keeps.throw _
      · split
        · exact removed.bind fun _ => Keeps.throw _
        · exact (establishes_goneFrom_persistDownloadedChunkFile _ _ _ _).bind fun _ =>
            Keeps.pure _
  | message message =>
      cases message with
      | chunk index data =>
          rw [storeReceivedChunk]
          refine removed.bind fun _ => ?_
          split
          · exact Keeps.throw _
          · split
            · exact Keeps.throw _
            · exact (keeps_goneFrom_persistDownloadedChunk _ _ _).bind fun _ => Keeps.pure _
      | hello | capabilities | keyExchange | authProof | requestManifest | requestShare | manifest
      | wrappedFileKey | «have» | requestChunk | error =>
          exact removed.bind fun _ => Keeps.throw _

/-- The loop leaves no temporary file of a frame that it stores, unless the frame is a raw chunk
that answers no request. -/
theorem goneFrom_persistReply (prims : Primitives) (outputDir : Option PathBuf)
    (inFlight : TreeMap UInt32 ChunkMeta) (elapsed : Bool) (temp : TempPath)
    {frame : ReceivedChunkFrame}
    (answers : ∀ index dataLen blake3Hash, frame = .rawChunkFile index dataLen blake3Hash →
      index ∈ inFlight) :
    Establishes (GoneFrom temp)
      (persistReply prims outputDir inFlight elapsed frame (some temp)) := by
  have removed := establishes_goneFrom_onDisk (establishes_gone_removeFileIfExists temp)
  cases frame with
  | rawChunkFile index dataLen blake3Hash =>
      have flying := answers index dataLen blake3Hash rfl
      have taken : takeInFlight inFlight index = .ok inFlight[index] := by
        simp [takeInFlight, Std.TreeMap.getElem?_eq_some_getElem flying]
      rw [persistReply, taken]
      refine Establishes.after (fun session => ⟨inFlight[index], session, rfl⟩) fun entry => ?_
      split
      · exact removed.bind fun _ => Keeps.throw _
      · exact (establishes_goneFrom_persistDownloadedChunkFile _ _ _ _).bind fun _ => Keeps.pure _
  | message message =>
      cases message with
      | chunk index data =>
          rw [persistReply, discardTemp]
          refine removed.bind fun _ => (Keeps.liftExcept _ _).bind fun entry => ?_
          split
          · exact Keeps.throw _
          · exact (keeps_goneFrom_persistDownloadedChunk _ _ _).bind fun _ => Keeps.pure _
      | hello | capabilities | keyExchange | authProof | requestManifest | requestShare | manifest
      | wrappedFileKey | «have» | requestChunk | error =>
          exact removed.bind fun _ => Keeps.throw _

theorem keeps_goneFrom_persistDownloadedChunkFile (index : UInt32) (other : TempPath)
    (outputDir : Option PathBuf) (elapsed : Bool) :
    Keeps (GoneFrom temp) (persistDownloadedChunkFile index other outputDir elapsed) := by
  intro session gone
  rw [persistDownloadedChunkFile, EStateM.run_get_bind]
  cases session.active with
  | none => exact keeps_goneFrom_onDisk (keeps_gone_removeFile _) session gone
  | some state =>
      exact ((keeps_goneFrom_onDisk keeps_gone_createShareDirs).bind fun _ =>
        (keeps_goneFrom_onDisk (keeps_gone_renameToChunk other _ _)).bind fun _ =>
          keeps_goneFrom_recordChunk index outputDir elapsed state) session gone

theorem keeps_goneFrom_persistReply (prims : Primitives) (outputDir : Option PathBuf)
    (inFlight : TreeMap UInt32 ChunkMeta) (elapsed : Bool) (frame : ReceivedChunkFrame)
    (other : Option TempPath) :
    Keeps (GoneFrom temp) (persistReply prims outputDir inFlight elapsed frame other) :=
  keeps_persistReply (fun _ _ => keeps_goneFrom_onDisk (keeps_gone_removeFile _))
    (fun path index _ => keeps_goneFrom_persistDownloadedChunkFile index path outputDir elapsed)
    (fun chunk => keeps_goneFrom_persistDownloadedChunk chunk outputDir elapsed) inFlight frame

end

/-! ## The windowed loop -/

section Windowed

variable {prims : Primitives} {outputDir : Option PathBuf} {peerAvailable : TreeSet UInt32}
  {requestWindow : Nat}

/-- The temporary file into which the loop receives. -/
def windowTemp (library : ActiveDownloadLibraryState) (stagingTimestamp : Nat) : TempPath :=
  { paths := library.paths, index := 0, suffix := stagingTimestamp }

/-- A reply that is not cut off, and that answers a request if it is a raw chunk. -/
def CleanReply (state : WindowedDownload) (reply : Option Frame) : Prop :=
  isCut reply = false ∧
    ∀ index data, reply = some (.raw index data) → index ∈ state.loop.inFlight

/-- The file is not there, or the loop has it in hand. -/
def AccountedFor (temp : TempPath) (state : WindowedDownload) : Prop :=
  GoneFrom temp state.session ∨ ∃ frame, state.phase = .received frame (some temp)

/-- A raw chunk in hand answers a request. -/
def HoldsAnswer (state : WindowedDownload) : Prop :=
  ∀ index dataLen blake3Hash temp,
    state.phase = .received (.rawChunkFile index dataLen blake3Hash) temp →
      index ∈ state.loop.inFlight

/-- A raw chunk is received into its temporary file and described by its hash. -/
theorem run_receive_raw (prims : Primitives) (temp : TempPath) (index : UInt32)
    (data : List UInt8) (session : LibrarySession) :
    ∃ after, (receiveChunkToFile prims temp [.raw index data]).run session =
      .ok (.rawChunkFile index data.length (prims.blake3 data), []) after := by
  have written : (onDisk (writeFile temp.paths (.part temp.index temp.suffix) data)).run
      session = _ := run_onDisk_ok rfl
  exact ⟨_, by simp [receiveChunkToFile, written, -bind_pure_comp]; rfl⟩

/-- The data of a chunk that is cut off is received before the connection turns out closed. -/
theorem run_receive_cut (prims : Primitives) (temp : TempPath) (index : UInt32)
    (received : List UInt8) (session : LibrarySession) :
    ∃ after, (receiveChunkToFile prims temp [.cut index received]).run session =
      .error (.protocol (.io .unexpectedEof)) after := by
  have written : (onDisk (writeFile temp.paths (.part temp.index temp.suffix) received)).run
      session = _ := run_onDisk_ok rfl
  exact ⟨_, by simp [receiveChunkToFile, written, -bind_pure_comp]; rfl⟩

/-- A reply that is not cut off is refused without creating a file. -/
theorem session_of_receive_error {temp : TempPath} {reply : Option Frame} {error : NetworkError}
    {session after : LibrarySession} (whole : isCut reply = false)
    (failed : (receiveChunkToFile prims temp reply.toList).run session = .error error after) :
    after = session := by
  match reply with
  | none => simp_all [receiveChunkToFile]
  | some (.encoded _) => simp [receiveChunkToFile] at failed
  | some (.raw index data) =>
      obtain ⟨reached, received⟩ := run_receive_raw prims temp index data session
      cases received.symm.trans failed
  | some (.cut _ _) => cases whole
  | some (.invalid _) => simp_all [receiveChunkToFile]

/-- A reply that creates a file has created it by the time it is received or refused. -/
theorem not_goneFrom_of_createsFile (prims : Primitives) (temp : TempPath) {reply : Option Frame}
    (creates : createsFile reply = true) (session : LibrarySession) :
    ¬GoneFrom temp ((receiveChunkToFile prims temp reply.toList).run session).final := by
  match reply with
  | some (.raw _ data) | some (.cut _ data) =>
      have written : (onDisk (writeFile temp.paths (.part temp.index temp.suffix) data)).run
          session = _ := run_onDisk_ok rfl
      simp [receiveChunkToFile, written, GoneFrom, Gone, -bind_pure_comp]
  | none | some (.encoded _) | some (.invalid _) => cases creates

/-- What has arrived in the loop is what the reply sends. -/
theorem frame_of_receive {temp : TempPath} {reply : Option Frame} {frame : ReceivedChunkFrame}
    {rest : List Frame} {session after : LibrarySession}
    (arrived : (receiveChunkToFile prims temp reply.toList).run session = .ok (frame, rest) after)
    {index : UInt32} {dataLen : Nat} {blake3Hash : Bytes32}
    (raw : frame = .rawChunkFile index dataLen blake3Hash) :
    ∃ data, reply = some (.raw index data) := by
  match reply with
  | none => simp [receiveChunkToFile] at arrived
  | some (.encoded _) => simp_all [receiveChunkToFile]
  | some (.raw other data) =>
      obtain ⟨reached, received⟩ := run_receive_raw prims temp other data session
      obtain ⟨⟨⟨rfl, -⟩, -⟩, -⟩ := by simpa [raw] using received.symm.trans arrived
      exact ⟨data, rfl⟩
  | some (.cut other data) =>
      obtain ⟨reached, received⟩ := run_receive_cut prims temp other data session
      cases received.symm.trans arrived
  | some (.invalid _) => simp [receiveChunkToFile] at arrived

/-- A raw chunk that a clean reply brings in answers a request. -/
theorem holdsAnswer_received {state : WindowedDownload} {reply : Option Frame} {temp : TempPath}
    {frame : ReceivedChunkFrame} {rest : List Frame} {session : LibrarySession}
    (given : Option TempPath) (replied : CleanReply state reply)
    (arrived : (receiveChunkToFile prims temp reply.toList).run state.session =
      .ok (frame, rest) session) :
    HoldsAnswer { state with session, phase := .received frame given } := by
  intro index dataLen blake3Hash held received
  obtain ⟨rfl, -⟩ := by simpa using received
  obtain ⟨data, rfl⟩ := frame_of_receive arrived rfl
  exact replied.2 index data rfl

/-- The replies that the steps of a trace receive into files are clean. -/
def RepliesClean (trace : List (WindowedDownload × WindowEvent × WindowedDownload)) : Prop :=
  ∀ before reply stagingTimestamp after library,
    (before, .receive reply stagingTimestamp, after) ∈ trace →
      before.session.active = some library → CleanReply before reply

theorem gone_of_onlyTemp {temp other : TempPath} {before after : Disk}
    (only : OnlyTemp other before after) (different : temp ≠ other) (gone : Gone temp before) :
    Gone temp after := by
  unfold Gone at gone ⊢
  by_cases same : temp.paths = other.paths
  · rw [same] at gone ⊢
    rw [only.files _ ?_, gone]
    intro parts
    apply different
    cases temp
    cases other
    simp_all
  · rw [only.others _ same, gone]

/-- Handling what has arrived leaves no file that was accounted for. -/
theorem goneFrom_handled (prims : Primitives) (outputDir : Option PathBuf) (elapsed : Bool)
    {state : WindowedDownload} {temp : TempPath} {frame : ReceivedChunkFrame}
    {given : Option TempPath}
    (holds : HoldsAnswer state) (received : state.phase = .received frame given)
    (accounted : AccountedFor temp state) :
    GoneFrom temp ((persistReply prims outputDir state.loop.inFlight elapsed frame given).run
      state.session).final := by
  obtain gone | ⟨other, held⟩ := accounted
  · exact keeps_goneFrom_persistReply prims outputDir _ elapsed frame given state.session gone
  · obtain ⟨rfl, rfl⟩ : frame = other ∧ given = some temp := by simpa [received] using held
    apply goneFrom_persistReply
    rintro index dataLen blake3Hash rfl
    exact holds index dataLen blake3Hash _ received

/-- A step with a clean reply accounts for the temporary files that were accounted for. -/
theorem accountedFor_step {state next : WindowedDownload} {event : WindowEvent} {temp : TempPath}
    (step : (downloadMissingChunksWindowed prims outputDir peerAvailable requestWindow).step state
      event = some next)
    (clean : RepliesClean [(state, event, next)]) (holds : HoldsAnswer state)
    (accounted : AccountedFor temp state) : HoldsAnswer next ∧ AccountedFor temp next := by
  have here (idle : ∀ frame, state.phase ≠ .received frame (some temp)) :
      GoneFrom temp state.session :=
    accounted.resolve_right fun ⟨frame, received⟩ => idle frame received
  cases windowMove_of_step step with
  | skip running | send running | sendFails running | receiveMessage running
  | receiveMessageFails running | finish running =>
      exact ⟨by simp [HoldsAnswer, running], .inl (here (by simp [running]))⟩
  | complete persisted =>
      exact ⟨by simp [HoldsAnswer], .inl (here (by simp [persisted]))⟩
  | @receive reply stagingTimestamp library frame rest session running full waiting active
      arrived =>
      have replied := clean _ _ _ _ library List.mem_cons_self active
      refine ⟨holdsAnswer_received _ replied arrived, ?_⟩
      by_cases mine : temp = windowTemp library stagingTimestamp
      · exact .inr ⟨frame, by simp [mine, windowTemp]⟩
      · have gone := here (by simp [running])
        obtain ⟨-, only, -⟩ := receiveChunkToFile_ok arrived
        exact .inl (gone_of_onlyTemp only mine gone)
  | receiveFails running full waiting active failed =>
      have replied := clean _ _ _ _ _ List.mem_cons_self active
      have same := session_of_receive_error replied.1 failed
      exact ⟨by simp [HoldsAnswer], .inl (by simpa [same] using here (by simp [running]))⟩
  | @persist elapsed frame given index chunk session received persisted =>
      refine ⟨by simp [HoldsAnswer], .inl ?_⟩
      have gone := goneFrom_handled prims outputDir elapsed holds received accounted
      rwa [persisted] at gone
  | @persistFails elapsed frame given error session received failed =>
      refine ⟨by simp [HoldsAnswer], .inl ?_⟩
      have gone := goneFrom_handled prims outputDir elapsed holds received accounted
      rwa [failed] at gone

theorem RepliesClean.of_subset
    {trace part : List (WindowedDownload × WindowEvent × WindowedDownload)}
    (clean : RepliesClean trace) (within : part ⊆ trace) : RepliesClean part :=
  fun before reply stagingTimestamp after library taken =>
    clean before reply stagingTimestamp after library (within taken)

/-- In a run with clean replies all temporary files stay accounted for. -/
theorem accountedFor_run {state final : WindowedDownload} {events : List WindowEvent}
    {temp : TempPath}
    (run : (downloadMissingChunksWindowed prims outputDir peerAvailable requestWindow).run state
      events = some final)
    (clean : RepliesClean ((downloadMissingChunksWindowed prims outputDir peerAvailable
      requestWindow).trace state events))
    (holds : HoldsAnswer state) (accounted : AccountedFor temp state) :
    AccountedFor temp final := by
  induction events generalizing state with
  | nil =>
      obtain rfl : state = final := by simpa using run
      exact accounted
  | cons event events ih =>
      obtain ⟨next, step, rest⟩ := Machine.run_cons_eq_some.mp run
      rw [Machine.trace_cons events step] at clean
      obtain ⟨next_holds, next_accounted⟩ := accountedFor_step step
        (clean.of_subset (by simp)) holds accounted
      exact ih rest (clean.of_subset (List.subset_cons_self _ _)) next_holds next_accounted

/-- A loop that has ended takes no further step. -/
theorem eq_nil_of_ended {state final : WindowedDownload} {events : List WindowEvent}
    {outcome : Except NetworkError Unit} (ended : state.phase = .ended outcome)
    (run : (downloadMissingChunksWindowed prims outputDir peerAvailable requestWindow).run state
      events = some final) : final = state := by
  cases events with
  | nil => simpa using run.symm
  | cons event events =>
      obtain ⟨next, step, -⟩ := Machine.run_cons_eq_some.mp run
      cases windowMove_of_step step <;> simp_all

/-- Storing a raw chunk that answers no request does not touch the library. -/
theorem session_of_unanswered {state final : WindowedDownload} {events : List WindowEvent}
    {outcome : Except NetworkError Unit} {index : UInt32} {dataLen : Nat} {blake3Hash : Bytes32}
    {temp : TempPath}
    (received : state.phase = .received (.rawChunkFile index dataLen blake3Hash) (some temp))
    (missing : index ∉ state.loop.inFlight)
    (run : (downloadMissingChunksWindowed prims outputDir peerAvailable requestWindow).run state
      events = some final)
    (ended : final.phase = .ended outcome) : final.session = state.session := by
  have refused (elapsed : Bool) :
      (persistReply prims outputDir state.loop.inFlight elapsed
        (.rawChunkFile index dataLen blake3Hash) (some temp)).run state.session =
          .error (.unexpectedChunkIndex (state.loop.inFlight.minKey?.getD index) index)
            state.session := by
    simp [persistReply, takeInFlight, Std.TreeMap.getElem?_eq_none missing]
  cases events with
  | nil =>
      obtain rfl : state = final := by simpa using run
      simp [received] at ended
  | cons event events =>
      obtain ⟨next, step, rest⟩ := Machine.run_cons_eq_some.mp run
      cases windowMove_of_step step with
      | persist here persisted =>
          obtain ⟨rfl, rfl⟩ := by simpa [received] using here
          rw [refused] at persisted
          cases persisted
      | persistFails here failed =>
          obtain ⟨rfl, rfl⟩ := by simpa [received] using here
          rw [refused] at failed
          obtain ⟨-, rfl⟩ := by simpa using failed
          rw [eq_nil_of_ended rfl rest]
      | skip running | send running | sendFails running | receive running | receiveFails running
      | receiveMessage running | receiveMessageFails running | finish running
      | complete running => simp [received] at running

/-- The temporary files that the steps of a trace create are gone. -/
def NoneLeft (trace : List (WindowedDownload × WindowEvent × WindowedDownload))
    (final : LibrarySession) : Prop :=
  ∀ before reply stagingTimestamp after library,
    (before, .receive reply stagingTimestamp, after) ∈ trace →
      before.session.active = some library → createsFile reply = true →
        GoneFrom (windowTemp library stagingTimestamp) final

/-- A step that receives an unclean reply leaves its file for good. -/
theorem createsFile_of_not_cleanReply {state : WindowedDownload} {reply : Option Frame}
    (unclean : ¬CleanReply state reply) : createsFile reply = true := by
  match reply with
  | some (.raw _ _) | some (.cut _ _) => rfl
  | none | some (.encoded _) | some (.invalid _) => simp [CleanReply, isCut] at unclean

/-- A loop that has ended has left no temporary file exactly when all its replies were clean. -/
theorem noneLeft_iff {state final : WindowedDownload} {events : List WindowEvent}
    {outcome : Except NetworkError Unit}
    (run : (downloadMissingChunksWindowed prims outputDir peerAvailable requestWindow).run state
      events = some final)
    (ended : final.phase = .ended outcome) :
    NoneLeft ((downloadMissingChunksWindowed prims outputDir peerAvailable requestWindow).trace
        state events) final.session ↔
      RepliesClean ((downloadMissingChunksWindowed prims outputDir peerAvailable
        requestWindow).trace state events) := by
  constructor
  · intro none_left before reply stagingTimestamp after library taken active
    obtain ⟨step, later, rest, -⟩ := Machine.run_after_mem_trace run taken
    by_contra unclean
    have creates := createsFile_of_not_cleanReply unclean
    have present := not_goneFrom_of_createsFile prims (windowTemp library stagingTimestamp) creates
      before.session
    have left := none_left _ _ _ _ _ taken active creates
    cases windowMove_of_step step with
    | @receive _ _ other frame left_frames session running full waiting here arrived =>
        obtain rfl : library = other := by simpa [active] using here
        match reply with
        | some (.raw index data) =>
            have missing : index ∉ before.loop.inFlight := by
              simpa [CleanReply, isCut] using unclean
            obtain ⟨reached, received⟩ := run_receive_raw prims
              (windowTemp library stagingTimestamp) index data before.session
            obtain ⟨⟨rfl, -⟩, -⟩ := by simpa using received.symm.trans arrived
            have kept := session_of_unanswered (by rfl) (by exact missing) rest ended
            rw [kept] at left
            unfold windowTemp at present
            rw [arrived] at present
            exact present left
        | some (.cut index data) =>
            obtain ⟨reached, received⟩ := run_receive_cut prims
              (windowTemp library stagingTimestamp) index data before.session
            cases received.symm.trans arrived
        | none | some (.encoded _) | some (.invalid _) => cases creates
    | @receiveFails _ _ other error session running full waiting here failed =>
        obtain rfl : library = other := by simpa [active] using here
        rw [eq_nil_of_ended rfl rest] at left
        unfold windowTemp at present
        rw [failed] at present
        exact present left
    | receiveMessage running full waiting here | receiveMessageFails running full waiting here =>
        simp [active] at here
  · intro clean before reply stagingTimestamp after library taken active created
    obtain ⟨step, later, rest, within⟩ := Machine.run_after_mem_trace run taken
    have replied := clean _ _ _ _ _ taken active
    have whole := clean.of_subset within
    cases windowMove_of_step step with
    | @receive _ _ other frame left_frames session running full waiting here arrived =>
        obtain rfl : library = other := by simpa [active] using here
        have accounted := accountedFor_run rest whole (holdsAnswer_received _ replied arrived)
          (.inr ⟨frame, rfl⟩ : AccountedFor (windowTemp library stagingTimestamp) _)
        exact accounted.resolve_right fun ⟨_, received⟩ => by simp [ended] at received
    | @receiveFails _ _ other error session running full waiting here failed =>
        obtain rfl : library = other := by simpa [active] using here
        match reply with
        | some (.raw index data) =>
            obtain ⟨reached, received⟩ := run_receive_raw prims
              (windowTemp library stagingTimestamp) index data before.session
            cases received.symm.trans failed
        | some (.cut _ _) => simp [CleanReply, isCut] at replied
        | none | some (.encoded _) | some (.invalid _) => cases created
    | receiveMessage running full waiting here | receiveMessageFails running full waiting here =>
        simp [active] at here

end Windowed

/-! ## The workers -/

section Parallel

variable {prims : Primitives} {manifest : Manifest} {outputDir : Option PathBuf}
  {peerCount : Nat} {available : Fin peerCount → TreeSet UInt32}

/-- A request of a worker is over and has received nothing, or stored or refused its frame. -/
def RequestReturns (worker : Fin peerCount) (temp : TempPath) :
    ParallelDownload peerCount → ParallelEvent peerCount → ParallelDownload peerCount → Prop
  | before, event, after =>
      (before.workers worker).temp = some temp ∧ (after.workers worker).temp = none ∧
        ∀ reply, event = .receive worker reply → createsFile reply = true

/-- No temporary file that a request has created outlives the request. -/
def NoneOutlives (trace : List (ParallelDownload peerCount × ParallelEvent peerCount ×
    ParallelDownload peerCount)) : Prop :=
  ∀ before event after worker temp, (before, event, after) ∈ trace →
    RequestReturns worker temp before event after → GoneFrom temp after.session

/-- No reply that the workers receive is cut off. -/
def RepliesWhole (trace : List (ParallelDownload peerCount × ParallelEvent peerCount ×
    ParallelDownload peerCount)) : Prop :=
  ∀ before worker reply after, (before, .receive worker reply, after) ∈ trace →
    isCut reply = false

@[simp]
theorem workers_move_self (state : ParallelDownload peerCount) (worker : Fin peerCount)
    (position : DownloadWorker) : (state.move worker position).workers worker = position := by
  simp [ParallelDownload.move]

theorem workers_move_of_ne (state : ParallelDownload peerCount) {worker other : Fin peerCount}
    (different : other ≠ worker) (position : DownloadWorker) :
    (state.move worker position).workers other = state.workers other := by
  simp [ParallelDownload.move, different]

/-- A request that returns with its reply whole has removed or renamed its file. -/
theorem gone_of_returns {state next : ParallelDownload peerCount}
    {event : ParallelEvent peerCount} {worker : Fin peerCount} {temp : TempPath}
    (step : (parallelDownloadWorkers prims manifest outputDir available).step state event =
      some next)
    (whole : ∀ reply, event = .receive worker reply → isCut reply = false)
    (returns : RequestReturns worker temp state event next) : GoneFrom temp next.session := by
  obtain ⟨held, released, created⟩ := returns
  have moved {other : Fin peerCount} {position : DownloadWorker}
      {base : ParallelDownload peerCount} (arrived : next = base.move other position)
      (workers : base.workers = state.workers) : worker = other := by
    by_contra different
    rw [arrived, workers_move_of_ne base different, workers, held] at released
    cases released
  cases parallelMove_of_step step with
  | start waiting | startFails waiting | lock waiting | pop waiting | giveUp waiting | drop waiting
  | take waiting | unknown waiting | rotate waiting | request waiting | requestFails waiting
  | complete waiting | release waiting | finish waiting =>
      obtain rfl := moved rfl rfl
      simp [waiting, DownloadWorker.temp] at held
  | receive receiving arrived =>
      obtain rfl := moved rfl rfl
      simp [DownloadWorker.temp] at released
  | @receiveFails _ reply entry other error session receiving failed =>
      obtain rfl := moved rfl rfl
      have replied := whole reply rfl
      match reply, created reply rfl with
      | some (.raw index data), _ =>
          obtain ⟨reached, received⟩ := run_receive_raw prims other index data
            state.session
          cases received.symm.trans failed
      | some (.cut _ _), _ => cases replied
  | @store _ elapsed entry other frame length session received stored =>
      obtain rfl := moved rfl rfl
      obtain rfl : other = temp := by simpa [received, DownloadWorker.temp] using held
      have gone := establishes_goneFrom_storeReceivedChunk prims outputDir entry other elapsed frame
        state.session
      rwa [stored] at gone
  | @storeFails _ elapsed entry other frame error session received failed =>
      obtain rfl := moved rfl rfl
      obtain rfl : other = temp := by simpa [received, DownloadWorker.temp] using held
      have gone := establishes_goneFrom_storeReceivedChunk prims outputDir entry other elapsed frame
        state.session
      rwa [failed] at gone

/-- A request whose reply is cut off returns and leaves its file. -/
theorem left_of_cut {state next : ParallelDownload peerCount} {worker : Fin peerCount}
    {reply : Option Frame}
    (step : (parallelDownloadWorkers prims manifest outputDir available).step state
      (.receive worker reply) = some next)
    (cut : isCut reply = true) :
    ∃ temp, RequestReturns worker temp state (.receive worker reply) next ∧
      ¬GoneFrom temp next.session := by
  match reply, cut with
  | some (.cut index received), _ =>
      cases parallelMove_of_step step with
      | @receive _ _ entry temp frame rest session receiving arrived =>
          obtain ⟨reached, refused⟩ := run_receive_cut prims temp index received
            state.session
          cases refused.symm.trans arrived
      | @receiveFails _ _ entry temp error session receiving failed =>
          have creates : createsFile (some (.cut index received)) = true := rfl
          have present := not_goneFrom_of_createsFile prims temp creates state.session
          rw [failed] at present
          refine ⟨temp, ⟨by simp [receiving, DownloadWorker.temp], ?_, ?_⟩, present⟩
          · simp [DownloadWorker.temp]
          · rintro other ⟨⟩
            rfl

/-- The workers have left no temporary file of their requests exactly when all replies were
whole. -/
theorem noneOutlives_iff (start : ParallelDownload peerCount)
    (events : List (ParallelEvent peerCount)) :
    NoneOutlives ((parallelDownloadWorkers prims manifest outputDir available).trace start
        events) ↔
      RepliesWhole ((parallelDownloadWorkers prims manifest outputDir available).trace start
        events) := by
  constructor
  · intro none_outlives before worker reply after taken
    by_contra cut
    obtain ⟨temp, returns, present⟩ := left_of_cut (Machine.reaches_of_mem_trace taken).2
      (by simpa using cut)
    exact present (none_outlives _ _ _ worker temp taken returns)
  · intro whole before event after worker temp taken returns
    apply gone_of_returns (Machine.reaches_of_mem_trace taken).2 _ returns
    rintro reply rfl
    exact whole before worker reply after taken

end Parallel

/-! ## Both downloads -/

/-- Neither download leaves a temporary file behind exactly when no reply is cut off inside its
data and, in the windowed loop, no raw chunk arrives that answers no request. -/
theorem temp_files_gone_iff (prims : Primitives) (outputDir : Option PathBuf) (manifest : Manifest)
    (completed : TreeSet UInt32) (session : LibrarySession) (peerAvailable : TreeSet UInt32)
    (chunks : TreeMap UInt32 EncryptedChunk) (requestWindow : Nat) (events : List WindowEvent)
    (final : WindowedDownload) (outcome : Except NetworkError Unit)
    (run : (downloadMissingChunksWindowed prims outputDir peerAvailable requestWindow).run
      (.initial manifest completed chunks session requestWindow) events = some final)
    (ended : final.phase = .ended outcome) {peerCount : Nat}
    (available : Fin peerCount → TreeSet UInt32)
    (parallelEvents : List (ParallelEvent peerCount)) :
    let windowed := (downloadMissingChunksWindowed prims outputDir peerAvailable
      requestWindow).trace (.initial manifest completed chunks session requestWindow) events
    let parallel := (parallelDownloadWorkers prims manifest outputDir available).trace
      (.initial manifest completed session peerCount) parallelEvents
    (NoneLeft windowed final.session ↔ RepliesClean windowed) ∧
      (NoneOutlives parallel ↔ RepliesWhole parallel) :=
  ⟨noneLeft_iff run ended, noneOutlives_iff _ _⟩

/-- A download that has opened its library and stored nothing yet. -/
def receivingSession : LibrarySession where
  disk := fun _ => .absent
  active := some {
    paths := samplePaths, progress := .empty samplePaths.shareId, dirtyChunks := 0 }

/-- Both downloads receive a raw chunk whole, and its temporary file is renamed. -/
theorem temp_files_gone_whole :
    (∃ final, (downloadMissingChunksWindowed transparentPrimitives none {0} 1).run
        (.initial (oneByteManifest [0]) ∅ ∅ receivingSession 1)
        [.request none, .receive (some (.raw 0 (oneByteChunk 0))) 7, .persist false, .complete,
          .finish] = some final ∧
      GoneFrom { paths := samplePaths, index := 0, suffix := 7 } final.session) ∧
      NoneOutlives ((parallelDownloadWorkers transparentPrimitives (oneByteManifest [0]) none
        fun _ : Fin 1 => {0}).trace (.initial (oneByteManifest [0]) ∅ receivingSession 1)
        [.start 0 none, .lock 0, .pop 0, .examine 0, .request 0 none 7,
          .receive 0 (some (.raw 0 (oneByteChunk 0))), .store 0 false]) := by
  obtain ⟨final, outcome, run, ended⟩ : ∃ final outcome,
      (downloadMissingChunksWindowed transparentPrimitives none {0} 1).run
        (.initial (oneByteManifest [0]) ∅ ∅ receivingSession 1)
        [.request none, .receive (some (.raw 0 (oneByteChunk 0))) 7, .persist false, .complete,
          .finish] = some final ∧ final.phase = .ended outcome := ⟨_, _, rfl, rfl⟩
  obtain ⟨first, second, third, fourth, fifth, last, traced, requested⟩ :
      ∃ first second third fourth fifth last,
        (downloadMissingChunksWindowed transparentPrimitives none {0} 1).trace
          (.initial (oneByteManifest [0]) ∅ ∅ receivingSession 1)
          [.request none, .receive (some (.raw 0 (oneByteChunk 0))) 7, .persist false, .complete,
            .finish] =
          [(first, .request none, second),
            (second, .receive (some (.raw 0 (oneByteChunk 0))) 7, third),
            (third, .persist false, fourth), (fourth, .complete, fifth), (fifth, .finish, last)] ∧
        second.loop.inFlight.contains 0 = true := ⟨_, _, _, _, _, _, rfl, rfl⟩
  obtain ⟨gone, outlives⟩ := temp_files_gone_iff transparentPrimitives none (oneByteManifest [0])
    ∅ receivingSession {0} ∅ 1 _ final outcome run ended (fun _ : Fin 1 => {0})
    [.start 0 none, .lock 0, .pop 0, .examine 0, .request 0 none 7,
      .receive 0 (some (.raw 0 (oneByteChunk 0))), .store 0 false]
  refine ⟨⟨final, run, gone.mpr ?_ _ (some (.raw 0 (oneByteChunk 0))) 7 _ _
    (List.mem_cons_of_mem _ List.mem_cons_self) rfl rfl⟩, outlives.mpr ?_⟩
  · intro before reply stagingTimestamp after library taken active
    rw [traced] at taken
    obtain ⟨rfl, ⟨rfl, rfl⟩, -⟩ := by simpa using taken
    refine ⟨rfl, ?_⟩
    rintro index data ⟨⟩
    exact requested
  · intro before worker reply after taken
    have received := Machine.mem_events_of_mem_trace taken
    obtain ⟨-, rfl⟩ := by simpa using received
    rfl

/-- A chunk that is cut off, and a chunk that was not requested, stay in their temporary files. -/
theorem temp_files_left :
    (∃ final, (downloadMissingChunksWindowed transparentPrimitives none {0} 1).run
        (.initial (oneByteManifest [0]) ∅ ∅ receivingSession 1)
        [.request none, .receive (some (.cut 0 [])) 7] = some final ∧
      final.phase = .ended (.error (.protocol (.io .unexpectedEof))) ∧
      ¬GoneFrom { paths := samplePaths, index := 0, suffix := 7 } final.session) ∧
    (∃ final error, (downloadMissingChunksWindowed transparentPrimitives none {0} 1).run
        (.initial (oneByteManifest [0]) ∅ ∅ receivingSession 1)
        [.request none, .receive (some (.raw 1 (oneByteChunk 1))) 7, .persist false] =
          some final ∧
      final.phase = .ended (.error error) ∧
      ¬GoneFrom { paths := samplePaths, index := 0, suffix := 7 } final.session) ∧
    ∃ final, (parallelDownloadWorkers transparentPrimitives (oneByteManifest [0]) none
        fun _ : Fin 1 => {0}).run (.initial (oneByteManifest [0]) ∅ receivingSession 1)
        [.start 0 none, .lock 0, .pop 0, .examine 0, .request 0 none 7,
          .receive 0 (some (.cut 0 []))] = some final ∧
      final.workers 0 = .failing 0 (.protocol (.io .unexpectedEof)) ∧
      ¬GoneFrom { paths := samplePaths, index := 0, suffix := 7 } final.session := by
  refine ⟨⟨_, rfl, rfl, ?_⟩, ⟨_, _, rfl, rfl, ?_⟩, ⟨_, rfl, rfl, ?_⟩⟩
  · exact fun gone => nomatch show (some [] : Option Bytes) = none from gone
  · exact fun gone => nomatch show some (oneByteChunk 1) = none from gone
  · exact fun gone => nomatch show (some [] : Option Bytes) = none from gone

end Etle
