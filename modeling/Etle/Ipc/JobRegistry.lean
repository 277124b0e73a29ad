import Etle.Foundations.Machine
import Etle.Ipc.DownloadCommand
import Etle.Transfer.Progress

/-!
# The registry of download jobs

A queued download enters its job as the active one of its share, and reports about the share carry
the active job.  A task that ends publishes its outcome and takes its job out, unless another job
has become the active one.  Queueing, reporting and ending happen in any order.
-/

namespace Etle

/-- The registry, the tasks that have not ended, the progress states and the bus. -/
structure DownloadTasks where
  active : ShareId → Option String
  running : List (ShareId × String)
  progress : ProgressTable
  bus : List IpcEvent

inductive TaskEvent where
  /-- A client queues a download. -/
  | queue (view : DaemonView) (request : DownloadRequest)
  /-- Some task reports progress of a share. -/
  | report (shareId : ShareId) (role action : String) (logLevel : TransferLogLevel)
      (done total bytes now : Nat)
  /-- The task of a job ends with an answer; the summary is that of the share in the library. -/
  | finish (shareId : ShareId) (jobId : String) (response : IpcResponse)
      (summary : Except String (Option IpcShareSummary))

/-- No download has been queued. -/
def DownloadTasks.idle (bus : List IpcEvent) : DownloadTasks where
  active _ := none
  running := []
  progress _ := none
  bus

namespace TaskEvent

/-- The job that an event queues. -/
def queued : TaskEvent → Option (ShareId × String)
  | .queue view request => some (request.shareId, generateJobId view "download" request.shareId)
  | _ => none

/-- The job whose task an event ends. -/
def finished : TaskEvent → Option (ShareId × String)
  | .finish shareId jobId _ _ => some (shareId, jobId)
  | _ => none

end TaskEvent

section

variable {rate : UInt64 → Nat → UInt64} {state next : DownloadTasks} {event : TaskEvent}

/-- The job under which an event is published. -/
def IpcEvent.jobId : IpcEvent → Option String
  | .taskProgress jobId .. | .transferProgress jobId .. | .transferCompleted jobId .. => jobId
  | _ => none

/-- The task of a download ends with a completed transfer of its share or with an error. -/
def TaskEvent.Answers : TaskEvent → Prop
  | .finish shareId _ response _ =>
      (∃ output fileName fileSize chunks,
        response = .transferCompleted shareId output fileName fileSize chunks) ∨
      ∃ message, response = .error message
  | _ => True

/-- A download command is answered so. -/
theorem answers_of_handleDownloadCommand {prims : Primitives} {libraryRoot : PathBuf}
    {found : DownloadSurroundings} {request : DownloadRequest} {resume : Bool}
    {world after : DownloadWorld} {response : IpcResponse}
    (answered : handleDownloadCommand prims libraryRoot found request resume world =
      some (response, after)) (jobId : String)
    (summary : Except String (Option IpcShareSummary)) :
    (TaskEvent.finish request.shareId jobId response summary).Answers := by
  unfold handleDownloadCommand at answered
  dsimp only at answered
  split at answered
  · obtain ⟨rfl, -⟩ := Prod.mk.inj (Option.some.inj answered)
    exact .inr ⟨_, rfl⟩
  · split at answered
    · obtain ⟨rfl, -⟩ := Prod.mk.inj (Option.some.inj answered)
      exact .inr ⟨_, rfl⟩
    · split at answered
      · cases answered
      · obtain ⟨rfl, -⟩ := Prod.mk.inj (Option.some.inj answered)
        exact .inr ⟨_, rfl⟩
      · split at answered
        · obtain ⟨rfl, -⟩ := Prod.mk.inj (Option.some.inj answered)
          exact .inl ⟨_, _, _, _, rfl⟩
        · obtain ⟨⟨moved, final⟩, -, same⟩ := Option.map_eq_some_iff.mp answered
          cases moved with
          | ok output =>
              obtain ⟨rfl, -⟩ := Prod.mk.inj same
              exact .inl ⟨_, _, _, _, rfl⟩
          | error error =>
              obtain ⟨rfl, -⟩ := Prod.mk.inj same
              exact .inr ⟨_, rfl⟩

end

end Etle
