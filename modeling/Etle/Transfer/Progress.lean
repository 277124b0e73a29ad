import Etle.Foundations.Lines
import Etle.Ipc.Events
import Etle.State.Listing

/-!
# Progress of transfers

All transfers of a process share one table of progress states.  A state counts bytes as long as the
reported number of chunks grows, and goes away when a report reaches the total.  Times are in
nanoseconds; the rate is a quotient of floating-point numbers and is a parameter.
-/

namespace Etle

inductive TransferLogLevel where
  | quiet
  | normal
  | verbose
  deriving DecidableEq

/-- What reports must agree in to count together. -/
structure ProgressKey where
  context : String
  role : String
  action : String
  total : Nat
  deriving DecidableEq

structure ProgressState where
  start : Nat
  lastLog : Nat
  lastDone : Nat
  bytesDone : UInt64

/-- The progress states of a process. -/
abbrev ProgressTable := ProgressKey → Option ProgressState

/-- A state that would log at once. -/
def ProgressState.new (now : Nat) : ProgressState where
  start := now
  lastLog := if 1000000000 ≤ now then now - 1000000000 else now
  lastDone := 0
  bytesDone := 0

/-- The largest number of bytes that is counted. -/
def maxBytes : Nat := 2 ^ 64 - 1

/-- A number of bytes that stops at the largest one. -/
def saturate (bytes : Nat) : UInt64 := UInt64.ofNat (min bytes maxBytes)

theorem toNat_saturate (bytes : Nat) : (saturate bytes).toNat = min bytes maxBytes := by
  have fits : min bytes maxBytes < 2 ^ 64 := (min_le_right _ _).trans_lt (by decide)
  rw [saturate, UInt64.toNat_ofNat']
  exact Nat.mod_eq_of_lt fits

/-- Count the bytes of a report that has more chunks than the last one that counted. -/
def ProgressState.count (state : ProgressState) (done bytes : Nat) : ProgressState :=
  if state.lastDone < done then
    { state with bytesDone := saturate (state.bytesDone.toNat + bytes), lastDone := done }
  else
    state

def shouldLogProgress (logLevel : TransferLogLevel) (done total sinceLastLog : Nat) : Bool :=
  match logLevel with
  | .quiet => false
  | .verbose => true
  | .normal => done = 1 || total ≤ done || 750000000 ≤ sinceLastLog

def estimatedTotalBytes (doneBytes : UInt64) (done total : Nat) : UInt64 :=
  if total = 0 then 0
  else if total ≤ done then doneBytes
  else if done = 0 ∨ doneBytes = 0 then 0
  else saturate (max (doneBytes.toNat / done) 1 * total)

def shouldPublishLegacyTransferProgress (role action : String) : Bool :=
  role = "peer" && (containsText action "received+verified" || action = "reused")

section

variable (rate : UInt64 → Nat → UInt64)

/-- Record a report and publish it when it is time; the job is the active one of the share. -/
def withContextLabel (context : String) (shareId : Option ShareId) (role action : String)
    (logLevel : TransferLogLevel) (done total bytes now : Nat) (jobId : Option String)
    (states : ProgressTable) : List IpcEvent × ProgressTable :=
  if logLevel = .quiet then
    ([], states)
  else
    let key : ProgressKey := { context, role, action, total }
    let state := ((states key).getD (.new now)).count done bytes
    if shouldLogProgress logLevel done total (now - state.lastLog) then
      let totalBytes := estimatedTotalBytes state.bytesDone done total
      let bytesPerSecond := rate state.bytesDone (now - state.start)
      let task := role ++ ":" ++ action
      let events :=
        match shareId with
        | some shareId =>
            (if shouldPublishLegacyTransferProgress role action then
              [.transferProgress jobId shareId done total state.bytesDone totalBytes bytesPerSecond]
            else
              []) ++
            [.taskProgress jobId task shareId.display done total state.bytesDone totalBytes
              bytesPerSecond]
        | none =>
            [.taskProgress none task context done total state.bytesDone totalBytes bytesPerSecond]
      let kept := if total ≤ done then none else some { state with lastLog := now }
      (events, Function.update states key kept)
    else
      ([], Function.update states key (some state))

/-- A report about a share. -/
def forShare (shareId : ShareId) (role action : String) (logLevel : TransferLogLevel)
    (done total bytes now : Nat) (jobId : Option String) (states : ProgressTable) :
    List IpcEvent × ProgressTable :=
  withContextLabel rate shareId.display (some shareId) role action logLevel done total bytes now
    jobId states

end

/-- The numbers of chunks and bytes of an event about progress. -/
def IpcEvent.progress : IpcEvent → Option (Nat × Nat × UInt64)
  | .taskProgress _ _ _ completedChunks totalChunks bytesDone _ _
  | .transferProgress _ _ completedChunks totalChunks bytesDone _ _ =>
      some (completedChunks, totalChunks, bytesDone)
  | _ => none

/-! ## What one report does -/

/-- The last number of chunks that has counted under a key. -/
def ProgressTable.last (states : ProgressTable) (key : ProgressKey) : Nat :=
  ((states key).map (·.lastDone)).getD 0

/-- The bytes that have been counted under a key. -/
def ProgressTable.bytes (states : ProgressTable) (key : ProgressKey) : Nat :=
  ((states key).map (·.bytesDone.toNat)).getD 0

theorem last_getD_new (states : ProgressTable) (key : ProgressKey) (now : Nat) :
    ((states key).getD (.new now)).lastDone = states.last key := by
  unfold ProgressTable.last
  cases states key <;> rfl

theorem bytes_getD_new (states : ProgressTable) (key : ProgressKey) (now : Nat) :
    ((states key).getD (.new now)).bytesDone.toNat = states.bytes key := by
  unfold ProgressTable.bytes
  cases states key <;> rfl

theorem bytes_le_maxBytes (states : ProgressTable) (key : ProgressKey) :
    states.bytes key ≤ maxBytes := by
  unfold ProgressTable.bytes
  cases states key with
  | none => exact Nat.zero_le _
  | some state => exact Nat.le_sub_one_of_lt state.bytesDone.toNat_lt

theorem lastDone_count (state : ProgressState) (done bytes : Nat) :
    (state.count done bytes).lastDone = max state.lastDone done := by
  unfold ProgressState.count
  split
  · simp only
    omega
  · omega

theorem bytesDone_count (state : ProgressState) (done bytes : Nat) :
    (state.count done bytes).bytesDone.toNat =
      if state.lastDone < done then min (state.bytesDone.toNat + bytes) maxBytes
      else state.bytesDone.toNat := by
  unfold ProgressState.count
  split
  · exact toNat_saturate _
  · rfl

/-- The bytes under a key after a report has counted. -/
def ProgressTable.counted (states : ProgressTable) (key : ProgressKey) (done bytes : Nat) : Nat :=
  if states.last key < done then min (states.bytes key + bytes) maxBytes else states.bytes key

section

variable {rate : UInt64 → Nat → UInt64} {shareId : ShareId} {role action : String}
  {logLevel : TransferLogLevel} {done total bytes now : Nat} {jobId : Option String}
  {states : ProgressTable}

/-- The key of the reports about a share. -/
def shareKey (shareId : ShareId) (role action : String) (total : Nat) : ProgressKey where
  context := shareId.display
  role := role
  action := action
  total := total

theorem counted_eq_count (states : ProgressTable) (key : ProgressKey) (done bytes now : Nat) :
    (((states key).getD (.new now)).count done bytes).bytesDone.toNat =
      states.counted key done bytes := by
  rw [bytesDone_count, last_getD_new, bytes_getD_new]
  rfl

/-- The events of a report show its numbers of chunks and the bytes that have counted. -/
theorem progress_forShare {event : IpcEvent}
    (published : event ∈ (forShare rate shareId role action logLevel done total bytes now jobId
      states).1) :
    ∃ bytesDone : UInt64, event.progress = some (done, total, bytesDone) ∧
      bytesDone.toNat = states.counted (shareKey shareId role action total) done bytes := by
  refine ⟨_, ?_, counted_eq_count states _ done bytes now⟩
  rw [forShare, withContextLabel] at published
  split at published
  · simp at published
  · simp only at published
    split at published
    · obtain legacy | rfl := by simpa using published
      · obtain ⟨-, rfl⟩ := by simpa using legacy
        rfl
      · rfl
    · simp at published

/-- A report below the total leaves its state in the table. -/
theorem entry_forShare (loud : logLevel ≠ .quiet) (below : done < total) :
    ∃ lastLog, (forShare rate shareId role action logLevel done total bytes now jobId states).2
      (shareKey shareId role action total) =
        some { ((states (shareKey shareId role action total)).getD (.new now)).count done bytes with
          lastLog } := by
  rw [forShare, withContextLabel, if_neg loud]
  simp only
  split
  · exact ⟨now, by simp [shareKey, Nat.not_le.mpr below]⟩
  · exact ⟨_, Function.update_self ..⟩

theorem last_forShare (loud : logLevel ≠ .quiet) (below : done < total) :
    (forShare rate shareId role action logLevel done total bytes now jobId states).2.last
      (shareKey shareId role action total) =
        max (states.last (shareKey shareId role action total)) done := by
  obtain ⟨lastLog, entry⟩ := @entry_forShare rate shareId role action logLevel done total bytes now
    jobId states loud below
  rw [ProgressTable.last, entry, ← last_getD_new states _ now, ← lastDone_count _ done bytes]
  rfl

theorem bytes_forShare (loud : logLevel ≠ .quiet) (below : done < total) :
    (forShare rate shareId role action logLevel done total bytes now jobId states).2.bytes
      (shareKey shareId role action total) =
        states.counted (shareKey shareId role action total) done bytes := by
  obtain ⟨lastLog, entry⟩ := @entry_forShare rate shareId role action logLevel done total bytes now
    jobId states loud below
  rw [ProgressTable.bytes, entry, ← counted_eq_count states _ done bytes now]
  rfl

/-- A report that reaches the total is published. -/
theorem exists_mem_forShare (loud : logLevel ≠ .quiet) (reached : total ≤ done) :
    ∃ event, event ∈ (forShare rate shareId role action logLevel done total bytes now jobId
      states).1 := by
  have due (sinceLastLog : Nat) : shouldLogProgress logLevel done total sinceLastLog = true := by
    cases logLevel with
    | quiet => exact absurd rfl loud
    | normal => simp [shouldLogProgress, reached]
    | verbose => rfl
  rw [forShare, withContextLabel, if_neg loud]
  simp only [due, if_true]
  exact ⟨_, List.mem_append_right _ List.mem_cons_self⟩

end

end Etle
