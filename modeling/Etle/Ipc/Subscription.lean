import Etle.Foundations.Machine
import Etle.Ipc.EventBus
import Etle.Ipc.Frames
import Etle.Ipc.MessageCodec

/-!
# A subscription from the bus to the client

The task of a subscription takes events off the bus and writes them to its connection, and the
client reads and handles them.  Publishing, taking, writing and reading happen in any order.  The
client handles the events published since it subscribed, in their order and each of them once, and a
gap is an event that tells its size.
-/

namespace Etle

namespace Ipc

/-- What the task of a subscription is doing. -/
inductive Serving where
  | acknowledging
  | receiving
  | sending (event : IpcEvent)
  | returned (result : Except IpcError Unit)

/-- What the client of a subscription is doing. -/
inductive Following where
  | acknowledging
  | handling
  | returned (error : IpcError)

/-- The bus, the position of the subscription, both ends of its connection and the bytes between
them. -/
structure Subscription where
  bus : List Notice
  position : Nat
  server : Serving
  stream : Bytes
  client : Following
  handled : List IpcEvent

inductive SubscriptionEvent where
  /-- Some job of the daemon publishes. -/
  | publish (notice : Notice)
  /-- The task takes what is next for it off the bus. -/
  | take
  /-- The task writes; the room is what the connection takes before it breaks. -/
  | write (room : Option (Nat × Option ErrorKind))
  /-- The client reads; the ending is what it finds after the last byte. -/
  | receive (ending : Option ErrorKind)

namespace Subscription

/-- The task has joined the bus. -/
def subscribe (bus : List Notice) : Subscription where
  bus
  position := bus.length
  server := .acknowledging
  stream := []
  client := .acknowledging
  handled := []

/-- Write one message to the client.  A client that is gone ends the task without an error. -/
def write {α : Type} (bincode : Bincode α) (message : α) (room : Option (Nat × Option ErrorKind))
    (state : Subscription) : Option Subscription :=
  match (sendIpcMessage bincode message).run { written := state.stream, room } with
  | .ok _ sink => some { state with stream := sink.written, server := .receiving }
  | .error (.failed error) sink =>
      some { state with
        stream := sink.written
        server := .returned (if isDisconnectedClient error then .ok () else .error error) }
  | .error .pending _ => none

/-- Read one message as the client. -/
def receive {α : Type} (bincode : Bincode α) (ending : Option ErrorKind)
    (use : α → Subscription → Subscription) (state : Subscription) : Option Subscription :=
  match (receiveIpcMessage bincode).run { bytes := state.stream, ending } with
  | .ok message rest => some (use message { state with stream := rest.bytes })
  | .error (.failed error) rest =>
      some { state with stream := rest.bytes, client := .returned error }
  | .error .pending _ => none

end Subscription

section

variable (responses : Bincode IpcResponse) (events : Bincode IpcEvent)

def subscriptionAck : IpcResponse := .ack "event subscription started"

/-- The daemon's `serve_subscription` and the client's `subscribe_ipc_events`. -/
def subscribeIpcEvents : Machine Subscription SubscriptionEvent where
  step state event :=
    match event with
    | .publish notice => some { state with bus := state.bus ++ [notice] }
    | .take =>
        match state.server with
        | .receiving =>
            (serveSubscription state.bus state.position).map fun (notice, position) =>
              { state with position, server := .sending notice.event }
        | _ => none
    | .write room =>
        match state.server with
        | .acknowledging => state.write responses subscriptionAck room
        | .sending event => state.write events event room
        | _ => none
    | .receive ending =>
        match state.client with
        | .acknowledging =>
            state.receive responses ending fun _ state => { state with client := .handling }
        | .handling =>
            state.receive events ending fun event state =>
              { state with handled := state.handled ++ [event] }
        | .returned _ => none

/-- What the client is to handle for what its subscription was told. -/
def toldEvents (told : List (Received Notice)) : List IpcEvent :=
  told.map fun item => item.notice.event

/-- The frames of the events are on their way, and behind them the front of one that was cut. -/
def EventsOnWay (way : List IpcEvent) (stream cut : Bytes) : Prop :=
  ∃ payloads, List.Forall₂ (IsFramed events) way payloads ∧
    stream = (payloads.map frame).flatten ++ cut

/-- What is between the two ends of the connection. -/
inductive Between (server : Serving) : Following → List IpcEvent → Bytes → Bytes → Prop where
  | unanswered {cut : Bytes} (early : server ≠ .receiving ∧ ∀ event, server ≠ .sending event) :
      Between server .acknowledging [] cut cut
  | acknowledged {way : List IpcEvent} {payload stream rest cut : Bytes}
      (started : server ≠ .acknowledging) (ack : IsFramed responses subscriptionAck payload)
      (arrived : stream = frame payload ++ rest) (others : EventsOnWay events way rest cut) :
      Between server .acknowledging way stream cut
  | handling {way : List IpcEvent} {stream cut : Bytes} (started : server ≠ .acknowledging)
      (arrived : EventsOnWay events way stream cut) : Between server .handling way stream cut
  | gone {kind : ErrorKind} {way : List IpcEvent} {stream cut : Bytes} :
      Between server (.returned (.io kind)) way stream cut

/-- The task has taken these events off the bus and has not written them. -/
def Serving.Holds (held : List IpcEvent) : Serving → Prop
  | .sending event => held = [event]
  | .returned _ => True
  | _ => held = []

/-- What the subscription has been told is with the client, on its way or in the hands of the
task. -/
structure Subscription.Told (start : Nat) (told : List (Received Notice)) (state : Subscription) :
    Prop where
  follows : Follows state.bus start told state.position
  parts : ∃ way held cut, toldEvents told = state.handled ++ way ++ held ∧
    state.server.Holds held ∧ CutFrame cut ∧
    ((∀ result, state.server ≠ .returned result) → cut = []) ∧
    Between responses events state.server state.client way state.stream cut

/-- The task takes no turn after it has fallen behind by more than the bus keeps. -/
def KeepsUp (state : Subscription) (event : SubscriptionEvent) : Prop :=
  match event with
  | .take => state.bus.length ≤ state.position + ipcEventChannelCapacity
  | _ => True

end

section

variable {responses : Bincode IpcResponse} {events : Bincode IpcEvent} {start : Nat}
  {told : List (Received Notice)} {state next : Subscription} {stream cut : Bytes}
  {way : List IpcEvent}

namespace EventsOnWay

theorem nil (events : Bincode IpcEvent) (cut : Bytes) : EventsOnWay events [] cut cut :=
  ⟨[], .nil, rfl⟩

theorem send (onWay : EventsOnWay events way stream []) {event : IpcEvent} {payload : Bytes}
    (framed : IsFramed events event payload) :
    EventsOnWay events (way ++ [event]) (stream ++ frame payload) [] := by
  obtain ⟨payloads, match_each, rfl⟩ := onWay
  refine ⟨payloads ++ [payload], List.rel_append match_each (.cons framed .nil), ?_⟩
  simp

theorem break_off (onWay : EventsOnWay events way stream []) (cut : Bytes) :
    EventsOnWay events way (stream ++ cut) cut := by
  obtain ⟨payloads, match_each, rfl⟩ := onWay
  exact ⟨payloads, match_each, by simp⟩

/-- The first of the frames on their way. -/
theorem first (onWay : EventsOnWay events way stream cut) :
    (way = [] ∧ stream = cut) ∨ ∃ event rest payload tail, way = event :: rest ∧
      IsFramed events event payload ∧ stream = frame payload ++ tail ∧
      EventsOnWay events rest tail cut := by
  obtain ⟨payloads, match_each, rfl⟩ := onWay
  cases match_each with
  | nil => exact .inl ⟨rfl, rfl⟩
  | @cons event payload rest payloads framed others =>
      exact .inr ⟨event, rest, payload, (payloads.map frame).flatten ++ cut, rfl, framed,
        by simp, payloads, others, rfl⟩

end EventsOnWay

namespace Subscription

/-- What is written is one whole frame, or the task ends after a part of one. -/
theorem write_cases {α : Type} {bincode : Bincode α} {message : α}
    {room : Option (Nat × Option ErrorKind)}
    (wrote : write bincode message room state = some next) :
    (∃ payload, IsFramed bincode message payload ∧
        next = { state with stream := state.stream ++ frame payload, server := .receiving }) ∨
      ∃ cut result, CutFrame cut ∧
        next = { state with stream := state.stream ++ cut, server := .returned result } := by
  unfold write at wrote
  split at wrote
  · rename_i sink sent
    obtain ⟨payload, framed, written⟩ := written_of_sendIpcMessage sent
    obtain rfl := Option.some.inj wrote
    exact .inl ⟨payload, framed, by rw [written]⟩
  · rename_i error sink failed
    obtain ⟨cut, part, written⟩ := written_of_sendIpcMessage_failed failed
    obtain rfl := Option.some.inj wrote
    exact .inr ⟨cut, _, part, by rw [written]⟩
  · cases wrote

theorem receive_of_isFramed {α : Type} {bincode : Bincode α} (roundTrip : bincode.RoundTrip)
    {message : α} {payload rest : Bytes} (framed : IsFramed bincode message payload)
    (arrived : state.stream = frame payload ++ rest) (ending : Option ErrorKind)
    (use : α → Subscription → Subscription) :
    receive bincode ending use state = some (use message { state with stream := rest }) := by
  rw [receive, arrived, run_receiveIpcMessage_of_isFramed roundTrip framed]

/-- Where no whole frame has arrived the client waits or finds the connection closed. -/
theorem receive_of_cutFrame {α : Type} {bincode : Bincode α} {ending : Option ErrorKind}
    {use : α → Subscription → Subscription} (part : CutFrame state.stream)
    (received : receive bincode ending use state = some next) :
    ∃ rest kind, next = { state with stream := rest, client := .returned (.io kind) } := by
  obtain ⟨after, failed⟩ := @run_receiveIpcMessage_of_cutFrame _ bincode _ part ending
  rw [receive, failed] at received
  cases ending with
  | none => cases received
  | some kind => exact ⟨after.bytes, kind, (Option.some.inj received).symm⟩

end Subscription

/-- A task that takes an item off the bus holds its event. -/
theorem told_of_take (held : state.Told responses events start told)
    (taken : (subscribeIpcEvents responses events).step state .take = some next) :
    ∃ item, next.Told responses events start (told ++ [item]) ∧
      ∀ skipped, item = .lagged skipped →
        state.position + ipcEventChannelCapacity < state.bus.length := by
  obtain ⟨bus, position, server, stream, client, handled⟩ := state
  obtain ⟨follows, way, waiting, cut, whole, holds, part, uncut, between⟩ := held
  cases server with
  | receiving =>
      obtain ⟨⟨notice, after⟩, served, rfl⟩ := Option.map_eq_some_iff.mp taken
      obtain ⟨⟨item, _⟩, got, same⟩ := Option.map_eq_some_iff.mp served
      obtain ⟨rfl, rfl⟩ := Prod.mk.inj same
      obtain rfl : waiting = [] := holds
      obtain rfl : cut = [] := uncut (by simp)
      refine ⟨item, ⟨follows.recv got, way, [item.notice.event], [], ?_, rfl, part,
        fun _ => rfl, ?_⟩, ?_⟩
      · simp only [toldEvents, List.map_append, List.append_nil] at whole ⊢
        rw [whole]
        rfl
      · cases between with
        | unanswered early => exact absurd rfl early.1
        | acknowledged started ack arrived others =>
            exact .acknowledged (by simp) ack arrived others
        | handling started arrived => exact .handling (by simp) arrived
        | gone => exact .gone
      · rintro skipped rfl
        obtain ⟨missing, rfl, kept⟩ := recv_eq_lagged.mp got
        omega
  | acknowledging => cases taken
  | sending event => cases taken
  | returned result => cases taken

/-- Writing moves what the task holds to the connection. -/
theorem told_of_write {room : Option (Nat × Option ErrorKind)}
    (held : state.Told responses events start told)
    (wrote : (subscribeIpcEvents responses events).step state (.write room) = some next) :
    next.Told responses events start told := by
  obtain ⟨bus, position, server, stream, client, handled⟩ := state
  obtain ⟨follows, way, waiting, cut, whole, holds, part, uncut, between⟩ := held
  cases server with
  | acknowledging =>
      obtain rfl : waiting = [] := holds
      obtain rfl : cut = [] := uncut (by simp)
      obtain ⟨payload, framed, rfl⟩ | ⟨cut, result, broken, rfl⟩ := Subscription.write_cases wrote
      · refine ⟨follows, way, [], [], whole, rfl, part, fun _ => rfl, ?_⟩
        cases between with
        | unanswered early =>
            exact .acknowledged (by simp) framed (by simp) (.nil events [])
        | acknowledged started => exact absurd rfl started
        | handling started => exact absurd rfl started
        | gone => exact .gone
      · refine ⟨follows, way, [], cut, whole, trivial, broken, by simp, ?_⟩
        cases between with
        | unanswered early => exact .unanswered (by simp)
        | acknowledged started => exact absurd rfl started
        | handling started => exact absurd rfl started
        | gone => exact .gone
  | sending event =>
      obtain rfl : waiting = [event] := holds
      obtain rfl : cut = [] := uncut (by simp)
      obtain ⟨payload, framed, rfl⟩ | ⟨cut, result, broken, rfl⟩ := Subscription.write_cases wrote
      · refine ⟨follows, way ++ [event], [], [], by simpa using whole, rfl, part, fun _ => rfl, ?_⟩
        cases between with
        | unanswered early => exact absurd rfl (early.2 event)
        | acknowledged started ack arrived others =>
            refine .acknowledged (by simp) ack ?_ (others.send framed)
            rw [arrived, List.append_assoc]
        | handling started arrived => exact .handling (by simp) (arrived.send framed)
        | gone => exact .gone
      · refine ⟨follows, way, [event], cut, whole, trivial, broken, by simp, ?_⟩
        cases between with
        | unanswered early => exact absurd rfl (early.2 event)
        | acknowledged started ack arrived others =>
            refine .acknowledged (by simp) ack ?_ (others.break_off cut)
            rw [arrived, List.append_assoc]
        | handling started arrived => exact .handling (by simp) (arrived.break_off cut)
        | gone => exact .gone
  | receiving => cases wrote
  | returned result => cases wrote

theorem step_receive_of_acknowledging (acknowledging : state.client = .acknowledging)
    (ending : Option ErrorKind) :
    (subscribeIpcEvents responses events).step state (.receive ending) =
      state.receive responses ending fun _ state => { state with client := .handling } := by
  simp only [subscribeIpcEvents, acknowledging]

theorem step_receive_of_handling (handling : state.client = .handling)
    (ending : Option ErrorKind) :
    (subscribeIpcEvents responses events).step state (.receive ending) =
      state.receive events ending fun event state =>
        { state with handled := state.handled ++ [event] } := by
  simp only [subscribeIpcEvents, handling]

/-- Reading moves the first event on its way to the client. -/
theorem told_of_receive (ackTrip : responses.RoundTrip) (eventTrip : events.RoundTrip)
    {ending : Option ErrorKind} (held : state.Told responses events start told)
    (received : (subscribeIpcEvents responses events).step state (.receive ending) = some next) :
    next.Told responses events start told := by
  obtain ⟨bus, position, server, stream, client, handled⟩ := state
  obtain ⟨follows, way, waiting, cut, whole, holds, part, uncut, between⟩ := held
  have ends {rest : Bytes} {kind : ErrorKind} : Subscription.Told responses events start told
      { bus, position, server, stream := rest, client := .returned (.io kind), handled } :=
    ⟨follows, way, waiting, cut, whole, holds, part, uncut, .gone⟩
  cases between with
  | unanswered early =>
      rw [step_receive_of_acknowledging rfl] at received
      obtain ⟨rest, kind, rfl⟩ := Subscription.receive_of_cutFrame part received
      exact ends
  | acknowledged started ack arrived others =>
      rw [step_receive_of_acknowledging rfl] at received
      obtain rfl := Option.some.inj
        ((Subscription.receive_of_isFramed ackTrip ack arrived ending _).symm.trans received)
      exact ⟨follows, way, waiting, cut, whole, holds, part, uncut, .handling started others⟩
  | handling started arrived =>
      rw [step_receive_of_handling rfl] at received
      obtain ⟨rfl, rfl⟩ | ⟨event, others, payload, tail, rfl, framed, front, later⟩ :=
        arrived.first
      · obtain ⟨rest, kind, rfl⟩ := Subscription.receive_of_cutFrame part received
        exact ends
      · obtain rfl := Option.some.inj
          ((Subscription.receive_of_isFramed eventTrip framed front ending _).symm.trans received)
        exact ⟨follows, others, waiting, cut, by simpa using whole, holds, part, uncut,
          .handling started later⟩
  | gone => cases received

/-- One step of any party keeps what has been told in its place, and a gap is told only after the
task has fallen behind. -/
theorem told_of_step (ackTrip : responses.RoundTrip) (eventTrip : events.RoundTrip)
    {event : SubscriptionEvent} (held : state.Told responses events start told)
    (step : (subscribeIpcEvents responses events).step state event = some next) :
    ∃ more, next.Told responses events start (told ++ more) ∧
      (KeepsUp state event → ∀ skipped, .lagged skipped ∉ more) := by
  cases event with
  | publish notice =>
      obtain rfl := Option.some.inj step
      obtain ⟨follows, parts⟩ := held
      refine ⟨[], ?_, by simp⟩
      rw [List.append_nil]
      exact ⟨follows.sent_append [notice], parts⟩
  | take =>
      obtain ⟨item, kept, behind⟩ := told_of_take held step
      refine ⟨[item], kept, fun keeps skipped member => ?_⟩
      have far := behind skipped (List.mem_singleton.mp member).symm
      have near : state.bus.length ≤ state.position + ipcEventChannelCapacity := keeps
      omega
  | write room =>
      refine ⟨[], ?_, by simp⟩
      rw [List.append_nil]
      exact told_of_write held step
  | receive ending =>
      refine ⟨[], ?_, by simp⟩
      rw [List.append_nil]
      exact told_of_receive ackTrip eventTrip held step

/-- What has been told stays in its place along a run, and a task that keeps up is told no gap. -/
theorem told_of_run (ackTrip : responses.RoundTrip) (eventTrip : events.RoundTrip)
    {steps : List SubscriptionEvent} {final : Subscription}
    (held : state.Told responses events start told)
    (ran : (subscribeIpcEvents responses events).run state steps = some final) :
    ∃ more, final.Told responses events start (told ++ more) ∧
      ((subscribeIpcEvents responses events).Obeys KeepsUp state steps →
        ∀ skipped, .lagged skipped ∉ more) := by
  induction steps generalizing state told with
  | nil =>
      obtain rfl : state = final := by simpa using ran
      exact ⟨[], by simpa using held, by simp⟩
  | cons event steps ih =>
      obtain ⟨next, step, rest⟩ := Machine.run_cons_eq_some.mp ran
      obtain ⟨first, held_next, near⟩ := told_of_step ackTrip eventTrip held step
      obtain ⟨later, held_final, all_near⟩ := ih held_next rest
      refine ⟨first ++ later, by rwa [← List.append_assoc], fun obeys skipped member => ?_⟩
      rcases List.mem_append.mp member with early | late
      · exact near obeys.1 skipped early
      · exact all_near (obeys.2 next step) skipped late

theorem told_of_subscribe (bus : List Notice) :
    (Subscription.subscribe bus).Told responses events bus.length [] :=
  ⟨.started, [], [], [], rfl, rfl, cutFrame_nil, fun _ => rfl,
    .unanswered (by simp [Subscription.subscribe])⟩

end

/-- However publishing, taking, writing and reading interleave, and wherever the connection breaks,
the client handles what its subscription was told from the moment it joined the bus: every event in
its place, and for each gap one event with its exact size.  It stops only when the connection does,
and has handled everything once nothing is on its way.  A task that keeps up is told no gap, so that
the client then handles the published events themselves. -/
theorem subscribeIpcEvents_tells (responses : Bincode IpcResponse) (events : Bincode IpcEvent)
    (ackTrip : responses.RoundTrip) (eventTrip : events.RoundTrip) (bus : List Notice)
    (steps : List SubscriptionEvent) (final : Subscription)
    (ran : (subscribeIpcEvents responses events).run (.subscribe bus) steps = some final) :
    ∃ told, Follows final.bus bus.length told final.position ∧
      final.handled <+: toldEvents told ∧
      (∀ error, final.client = .returned error → ∃ kind, error = .io kind) ∧
      (final.server = .receiving → final.client = .handling → final.stream = [] →
        final.handled = toldEvents told) ∧
      ((subscribeIpcEvents responses events).Obeys KeepsUp (.subscribe bus) steps →
        toldEvents told <+: (final.bus.drop bus.length).map Notice.event) := by
  obtain ⟨told, ⟨follows, way, held, cut, whole, holds, part, uncut, between⟩, near⟩ :=
    told_of_run ackTrip eventTrip (told_of_subscribe bus) ran
  rw [List.nil_append] at follows whole
  refine ⟨told, follows, ⟨way ++ held, by rw [whole, List.append_assoc]⟩, ?_, ?_, ?_⟩
  · intro error stopped
    rw [stopped] at between
    cases between with
    | gone => exact ⟨_, rfl⟩
  · intro receiving handling empty
    obtain rfl : held = [] := by simpa [receiving, Serving.Holds] using holds
    rw [handling, empty] at between
    cases between with
    | handling started arrived =>
        rcases arrived.first with ⟨rfl, -⟩ | ⟨event, others, payload, tail, rfl, framed, front, -⟩
        · simpa using whole.symm
        · have lengths := congrArg List.length front
          rw [List.length_append, length_frame, List.length_nil] at lengths
          omega
  · intro keeps
    obtain ⟨-, messages⟩ := follows.eq_map_message (near keeps)
    rw [toldEvents, messages, List.map_map]
    exact (List.take_prefix _ _).map _

/-- One event was published before the client joined the bus and one afterwards. -/
def subscribedSteps : List SubscriptionEvent :=
  [.write none, .publish ⟨.serverStopped, none⟩, .receive none, .take, .write none, .receive none]

/-- The client handles the event that was published after it had joined. -/
theorem subscribeIpcEvents_tells_one :
    ∃ final told, (subscribeIpcEvents ipcResponseBincode ipcEventBincode).run
        (.subscribe [⟨.error "earlier", none⟩]) subscribedSteps = some final ∧
      final.handled = [.serverStopped] ∧ Follows final.bus 1 told final.position ∧
      final.handled <+: toldEvents told := by
  have outcome : ((subscribeIpcEvents ipcResponseBincode ipcEventBincode).run
      (.subscribe [⟨.error "earlier", none⟩]) subscribedSteps).map Subscription.handled =
        some [.serverStopped] := by decide +kernel
  obtain ⟨final, ran, handled⟩ := Option.map_eq_some_iff.mp outcome
  obtain ⟨told, follows, front, -⟩ := subscribeIpcEvents_tells ipcResponseBincode ipcEventBincode
    ipcResponseBincode_roundTrip ipcEventBincode_roundTrip [⟨.error "earlier", none⟩]
    subscribedSteps final ran
  exact ⟨final, told, ran, handled, follows, front⟩

end Ipc

end Etle
