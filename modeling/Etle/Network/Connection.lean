import Etle.Foundations.Outcome
import Etle.Protocol.Message

/-!
# One end of a connection

What a peer sends is the list of frames it will have sent by the end of the stream; what this end
has sent is collected.  A send may fail once the peer has accepted enough messages.  One end of a
session is then a function of the frames it receives.
-/

namespace Etle

/-- One end of a connection. -/
structure Connection where
  /-- The frames still to be received. -/
  replies : List Frame
  /-- How many more sends succeed and what the next one fails with; `none` means that all do. -/
  sendLimit : Option (Nat × ProtocolError)
  /-- The frames sent so far. -/
  sent : List Frame

/-- A computation on one end of a connection. -/
abbrev OnStream := EStateM NetworkError Connection

/-- Send one frame. -/
def sendFrame (frame : Frame) : OnStream Unit := fun connection =>
  match connection.sendLimit with
  | none => .ok () { connection with sent := connection.sent ++ [frame] }
  | some (0, error) => .error (.protocol error) connection
  | some (left + 1, error) =>
      .ok () { connection with sent := connection.sent ++ [frame], sendLimit := some (left, error) }

/-- Send one message. -/
def send (message : WireMessage) : OnStream Unit := sendFrame (.encoded message)

/-- Receive one message. -/
def receive : OnStream WireMessage := fun connection =>
  match receiveFrame connection.replies with
  | .error error => .error (.protocol error) connection
  | .ok (message, rest) => .ok message { connection with replies := rest }

/-- Receive one message of the expected kind. -/
def receiveExpected {α : Type} (expected : String) (read : WireMessage → Option α) :
    OnStream α := do
  let actual ← receive
  match read actual with
  | some value => return value
  | none => throw (.unexpectedMessage expected actual)

/-! ## What sending and receiving need -/

/-- Sends that succeed use up the limit. -/
def sendLimitAfter (sendLimit : Option (Nat × ProtocolError)) (count : Nat) :
    Option (Nat × ProtocolError) :=
  sendLimit.map fun limit => (limit.1 - count, limit.2)

/-- From one state of a connection to a later one, exactly the given frames are received and
exactly the given frames are sent. -/
structure Connection.Passes (before : Connection) (received sent : List Frame)
    (after : Connection) : Prop where
  replies : before.replies = received ++ after.replies
  allowed : ∀ left error, before.sendLimit = some (left, error) → sent.length ≤ left
  sendLimit : after.sendLimit = sendLimitAfter before.sendLimit sent.length
  sent : after.sent = before.sent ++ sent

namespace Connection.Passes

variable {before middle after : Connection} {received firstReceived secondReceived : List Frame}
  {sent firstSent secondSent : List Frame}

/-- What is received and sent determines the later state. -/
theorem unique {other : Connection} (first : before.Passes received sent after)
    (second : before.Passes received sent other) : after = other := by
  obtain ⟨replies, sendLimit, sofar⟩ := after
  obtain ⟨otherReplies, otherLimit, otherSofar⟩ := other
  have same_replies : replies = otherReplies :=
    List.append_cancel_left (first.replies.symm.trans second.replies)
  have same_limit : sendLimit = otherLimit := first.sendLimit.trans second.sendLimit.symm
  have same_sent : sofar = otherSofar := first.sent.trans second.sent.symm
  rw [same_replies, same_limit, same_sent]

@[simp]
theorem nil_iff : before.Passes [] [] after ↔ after = before := by
  constructor
  · intro passes
    refine passes.unique ⟨rfl, by simp, ?_, by simp⟩
    cases limit : before.sendLimit <;> simp [sendLimitAfter]
  · rintro rfl
    refine ⟨rfl, by simp, ?_, by simp⟩
    cases limit : after.sendLimit <;> simp [sendLimitAfter]

theorem trans (first : before.Passes firstReceived firstSent middle)
    (second : middle.Passes secondReceived secondSent after) :
    before.Passes (firstReceived ++ secondReceived) (firstSent ++ secondSent) after := by
  refine ⟨?_, ?_, ?_, ?_⟩
  · rw [first.replies, second.replies, List.append_assoc]
  · intro left error limit
    have enough := first.allowed left error limit
    have later := second.allowed (left - firstSent.length) error
      (by rw [first.sendLimit, limit]; rfl)
    rw [List.length_append]
    omega
  · rw [second.sendLimit, first.sendLimit]
    cases before.sendLimit <;> simp [sendLimitAfter, Nat.sub_add_eq]
  · rw [second.sent, first.sent, List.append_assoc]

/-- A passage can be cut in two. -/
theorem split (passes : before.Passes (firstReceived ++ secondReceived) (firstSent ++ secondSent)
    after) :
    ∃ middle, before.Passes firstReceived firstSent middle ∧
      middle.Passes secondReceived secondSent after := by
  refine ⟨⟨secondReceived ++ after.replies, sendLimitAfter before.sendLimit firstSent.length,
    before.sent ++ firstSent⟩, ⟨?_, ?_, rfl, rfl⟩, ⟨rfl, ?_, ?_, ?_⟩⟩
  · rw [passes.replies, List.append_assoc]
  · intro left error limit
    have enough := passes.allowed left error limit
    rw [List.length_append] at enough
    omega
  · intro left error limit
    simp only [sendLimitAfter, Option.map_eq_some_iff, Prod.mk.injEq, Prod.exists] at limit
    obtain ⟨total, cause, found, rfl, rfl⟩ := limit
    have enough := passes.allowed total cause found
    rw [List.length_append] at enough
    omega
  · rw [passes.sendLimit]
    cases before.sendLimit <;> simp [sendLimitAfter, Nat.sub_add_eq]
  · rw [passes.sent, List.append_assoc]

/-- A passage does not depend on what is received after it. -/
theorem retarget (passes : before.Passes received sent after) (later : List Frame) :
    ({ before with replies := received ++ later } : Connection).Passes received sent
      { after with replies := later } :=
  ⟨rfl, passes.allowed, passes.sendLimit, passes.sent⟩

theorem cons_received {frame : Frame} :
    before.Passes (frame :: received) sent after ↔
      ∃ middle, before.Passes [frame] [] middle ∧ middle.Passes received sent after := by
  constructor
  · intro passes
    exact @split before after [frame] received [] sent passes
  · rintro ⟨middle, first, second⟩
    exact first.trans second

theorem cons_sent {frame : Frame} :
    before.Passes received (frame :: sent) after ↔
      ∃ middle, before.Passes [] [frame] middle ∧ middle.Passes received sent after := by
  constructor
  · intro passes
    exact @split before after [] received [frame] sent passes
  · rintro ⟨middle, first, second⟩
    exact first.trans second

end Connection.Passes

/-- A send succeeds exactly when one more is allowed. -/
theorem run_sendFrame_eq_ok {frame : Frame} {before after : Connection} {value : Unit} :
    (sendFrame frame).run before = .ok value after ↔ before.Passes [] [frame] after := by
  constructor
  · intro sent
    obtain ⟨replies, sendLimit, sofar⟩ := before
    match sendLimit with
    | none =>
        obtain rfl : { replies, sendLimit := none, sent := sofar ++ [frame] } = after := by
          simpa [sendFrame, EStateM.run] using sent
        exact ⟨rfl, by simp, rfl, rfl⟩
    | some (0, error) => simp [sendFrame, EStateM.run] at sent
    | some (left + 1, error) =>
        obtain rfl : { replies, sendLimit := some (left, error), sent := sofar ++ [frame] } =
            after := by
          simpa [sendFrame, EStateM.run] using sent
        refine ⟨rfl, ?_, rfl, rfl⟩
        rintro _ _ ⟨rfl, rfl⟩
        simp
  · intro passes
    obtain ⟨replies, sendLimit, sofar⟩ := before
    obtain ⟨laterReplies, laterLimit, laterSofar⟩ := after
    obtain rfl : replies = laterReplies := passes.replies
    obtain rfl : laterLimit = sendLimitAfter sendLimit 1 := passes.sendLimit
    obtain rfl : laterSofar = sofar ++ [frame] := passes.sent
    match sendLimit with
    | none => rfl
    | some (0, error) => simpa using passes.allowed 0 error rfl
    | some (left + 1, error) => rfl

theorem run_send_eq_ok {message : WireMessage} {before after : Connection} {value : Unit} :
    (send message).run before = .ok value after ↔
      before.Passes [] [.encoded message] after :=
  run_sendFrame_eq_ok

/-- A send that fails leaves the connection as it was. -/
theorem eq_of_run_send_eq_error {message : WireMessage} {before after : Connection}
    {error : NetworkError} (failed : (send message).run before = .error error after) :
    after = before := by
  obtain ⟨replies, sendLimit, sofar⟩ := before
  match sendLimit with
  | none => simp [send, sendFrame, EStateM.run] at failed
  | some (0, cause) =>
      obtain ⟨-, rfl⟩ : _ ∧ _ = after := by simpa [send, sendFrame, EStateM.run] using failed
      rfl
  | some (left + 1, cause) => simp [send, sendFrame, EStateM.run] at failed

/-- A message that is not a chunk comes in an encoded frame. -/
theorem receiveFrame_eq_ok {message : WireMessage} (not_chunk : ∀ index data,
    message ≠ .chunk index data) {frames rest : List Frame} :
    receiveFrame frames = .ok (message, rest) ↔ frames = .encoded message :: rest := by
  cases frames with
  | nil => simp [receiveFrame]
  | cons frame frames =>
      cases frame with
      | encoded other => simp [receiveFrame]
      | raw index data =>
          simp only [receiveFrame, Except.ok.injEq, Prod.mk.injEq, List.cons.injEq, reduceCtorEq,
            false_and, iff_false, not_and]
          intro same
          exact absurd same.symm (not_chunk index data)
      | cut index data => simp [receiveFrame]
      | invalid error => simp [receiveFrame]

/-- A receive succeeds exactly when the next frame is readable. -/
theorem run_receive_eq_ok {before after : Connection} {message : WireMessage} :
    receive.run before = .ok message after ↔
      ∃ rest, receiveFrame before.replies = .ok (message, rest) ∧
        after = { before with replies := rest } := by
  cases frame : receiveFrame before.replies with
  | error error => simp [receive, EStateM.run, frame]
  | ok found =>
      obtain ⟨other, rest⟩ := found
      simp [receive, EStateM.run, frame, eq_comm]

theorem passes_of_replies {before : Connection} {frame : Frame} {rest : List Frame}
    (replies : before.replies = frame :: rest) :
    before.Passes [frame] [] { before with replies := rest } := by
  refine ⟨replies, by simp, ?_, by simp⟩
  cases limit : before.sendLimit <;> simp [sendLimitAfter]

/-- Receiving an expected message succeeds exactly when the next frame encodes one. -/
theorem run_receiveExpected_eq_ok {α : Type} {expected : String} {read : WireMessage → Option α}
    {embed : α → WireMessage} (reads : ∀ message value, read message = some value ↔
      message = embed value) (not_chunk : ∀ value index data, embed value ≠ .chunk index data)
    {before after : Connection} {value : α} :
    (receiveExpected expected read).run before = .ok value after ↔
      before.Passes [.encoded (embed value)] [] after := by
  simp only [receiveExpected, EStateM.run_bind_eq_ok, run_receive_eq_ok]
  constructor
  · rintro ⟨message, -, ⟨rest, frame, rfl⟩, matched⟩
    split at matched
    · rename_i wanted accepted
      obtain ⟨rfl, rfl⟩ : wanted = value ∧ { before with replies := rest } = after := by
        simpa using matched
      obtain rfl := (reads _ _).mp accepted
      exact passes_of_replies ((receiveFrame_eq_ok (not_chunk wanted)).mp frame)
    · simp at matched
  · intro passes
    have replies : before.replies = .encoded (embed value) :: after.replies := passes.replies
    refine ⟨embed value, _,
      ⟨after.replies, (receiveFrame_eq_ok (not_chunk value)).mpr replies, rfl⟩, ?_⟩
    rw [passes.unique (passes_of_replies replies)]
    simp [(reads _ _).mpr rfl]

/-! ## What has been sent -/

/-- None of the frames sent so far is a forbidden one. -/
def Connection.Avoids (forbidden : Frame → Prop) (connection : Connection) : Prop :=
  ∀ frame ∈ connection.sent, ¬forbidden frame

section Keeps

variable {property : Connection → Prop} {forbidden : Frame → Prop}

/-- A send keeps a property of the connection that one more frame keeps. -/
theorem keeps_sendFrame {frame : Frame}
    (adds : ∀ connection sendLimit, property connection →
      property { connection with sent := connection.sent ++ [frame], sendLimit }) :
    EStateM.Keeps property (sendFrame frame) := by
  intro connection holds
  simp only [sendFrame, EStateM.run]
  split
  · exact adds connection _ holds
  · exact holds
  · exact adds connection _ holds

/-- A receive keeps a property that does not depend on what is still to be received. -/
theorem keeps_receive
    (blind : ∀ connection replies, property connection → property { connection with replies }) :
    EStateM.Keeps property receive := by
  intro connection holds
  simp only [receive, EStateM.run]
  split
  · exact holds
  · exact blind connection _ holds

theorem keeps_receiveExpected {α : Type} {expected : String} {read : WireMessage → Option α}
    (blind : ∀ connection replies, property connection → property { connection with replies }) :
    EStateM.Keeps property (receiveExpected expected read) := by
  refine (keeps_receive blind).bind fun actual => ?_
  split
  · exact .pure _
  · exact .throw _

/-- A send of another frame avoids the forbidden ones. -/
theorem keeps_avoids_send {message : WireMessage} (allowed : ¬forbidden (.encoded message)) :
    EStateM.Keeps (Connection.Avoids forbidden) (send message) := by
  refine keeps_sendFrame fun connection sendLimit avoids frame member => ?_
  obtain earlier | rfl : frame ∈ connection.sent ∨ frame = .encoded message := by
    simpa using member
  · exact avoids frame earlier
  · exact allowed

theorem keeps_avoids_receiveExpected {α : Type} {expected : String}
    {read : WireMessage → Option α} :
    EStateM.Keeps (Connection.Avoids forbidden) (receiveExpected expected read) :=
  keeps_receiveExpected fun _ _ avoids => avoids

/-- What has been sent stays sent. -/
theorem keeps_prefix_sendFrame {base : List Frame} {frame : Frame} :
    EStateM.Keeps (fun connection => base <+: connection.sent) (sendFrame frame) :=
  keeps_sendFrame fun _ _ sent => sent.trans (List.prefix_append _ _)

end Keeps

end Etle
