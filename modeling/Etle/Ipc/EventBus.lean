import Etle.Foundations.Broadcast
import Etle.Ipc.Events

/-!
# The event bus of the daemon

The jobs of the daemon publish events on one channel.  A subscription sends them on to its client,
and tells the client with an event of its own when it has lagged behind.
-/

namespace Etle

/-- A job of the daemon.  The share of a seeding job is the one it makes. -/
inductive DaemonJob where
  | seed (input : String) (shareId : ShareId)
  | download (shareId : ShareId) (jobId : String)
  deriving DecidableEq

/-- An event, and the job whose failure it reports; clients only receive the event. -/
structure Notice where
  event : IpcEvent
  failed : Option DaemonJob
  deriving DecidableEq

def ipcEventChannelCapacity : Nat := 512

/-- What a subscription sends for what it has received. -/
def Received.notice : Received Notice → Notice
  | .message notice => notice
  | .lagged skipped =>
      { event := .error ("event subscriber lagged; skipped " ++ toString skipped ++ " event(s)")
        failed := none }

/-- One turn of a subscription at a position. -/
def serveSubscription (bus : List Notice) (position : Nat) : Option (Notice × Nat) :=
  (recv ipcEventChannelCapacity bus position).map fun (received, after) => (received.notice, after)

/-- A subscription reports failed jobs only as they were published. -/
theorem mem_bus_of_serveSubscription {bus : List Notice} {position after : Nat} {notice : Notice}
    {job : DaemonJob} (served : serveSubscription bus position = some (notice, after))
    (failed : notice.failed = some job) : notice ∈ bus := by
  obtain ⟨⟨received, next⟩, got, sent⟩ := Option.map_eq_some_iff.mp served
  obtain ⟨rfl, rfl⟩ := Prod.mk.inj sent
  cases received with
  | message published => exact List.mem_of_getElem? (recv_eq_message.mp got).2.1
  | lagged skipped => cases failed

end Etle
