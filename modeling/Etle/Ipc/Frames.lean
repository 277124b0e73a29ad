import Etle.Ipc.Listener

/-!
# Messages on their way

What one end of a local connection sends, the other end receives: frame by frame, and not before a
frame has arrived as a whole.
-/

namespace Etle

namespace Ipc

/-- A payload as it is sent. -/
def frame (payload : Bytes) : Bytes := beBytes 4 payload.length ++ payload

/-- A message is sent with this payload. -/
def IsFramed {α : Type} (bincode : Bincode α) (message : α) (payload : Bytes) : Prop :=
  bincode.encodeToVec message = some payload ∧ validateFrameLen payload.length = .ok ()

/-- Some frame starts with these bytes and goes on. -/
def CutFrame (bytes : Bytes) : Prop :=
  ∃ payload rest, validateFrameLen payload.length = .ok () ∧ rest ≠ [] ∧
    frame payload = bytes ++ rest

variable {α : Type} {bincode : Bincode α} {message : α} {payload : Bytes}

theorem cutFrame_nil : CutFrame [] :=
  ⟨[0], frame [0], rfl, by simp [frame], rfl⟩

theorem length_frame (payload : Bytes) : (frame payload).length = 4 + payload.length := by
  rw [frame, List.length_append, length_beBytes]

theorem le_of_validateFrameLen {len : Nat} (valid : validateFrameLen len = .ok ()) :
    len ≤ maxIpcFrameSize := by
  unfold validateFrameLen at valid
  split at valid
  · cases valid
  · split at valid
    · cases valid
    · rename_i small
      exact Nat.not_lt.mp small

theorem beValue_of_validateFrameLen {len : Nat} (valid : validateFrameLen len = .ok ()) :
    beValue (beBytes 4 len) = len := by
  apply beValue_beBytes
  have bound : len ≤ 4 * 1024 * 1024 := le_of_validateFrameLen valid
  omega

/-- Sending a message that has a frame is writing this frame. -/
theorem run_sendIpcMessage_of_isFramed (framed : IsFramed bincode message payload)
    (sink : Writer (Option ErrorKind)) :
    (sendIpcMessage bincode message).run sink =
      (writeAll Interrupt.ofEnding (frame payload)).run sink := by
  obtain ⟨encoded, valid⟩ := framed
  simp only [sendIpcMessage, encoded, valid, frame, writeAll_append]
  rfl

/-- A message without a frame is not sent. -/
theorem run_sendIpcMessage_of_not_isFramed (unframed : ∀ payload, ¬IsFramed bincode message payload)
    (sink : Writer (Option ErrorKind)) :
    ∃ error, (sendIpcMessage bincode message).run sink = .error (.failed error) sink := by
  cases encoded : bincode.encodeToVec message with
  | none => exact ⟨.encode, by simp [sendIpcMessage, encoded]⟩
  | some payload =>
      cases valid : validateFrameLen payload.length with
      | ok accepted => exact absurd ⟨encoded, valid⟩ (unframed payload)
      | error error => exact ⟨error, by simp [sendIpcMessage, encoded, valid]⟩

/-- A message that has been sent is on its way as one frame. -/
theorem written_of_sendIpcMessage {before after : Writer (Option ErrorKind)}
    (sent : (sendIpcMessage bincode message).run before = .ok () after) :
    ∃ payload, IsFramed bincode message payload ∧
      after.written = before.written ++ frame payload := by
  by_cases framed : ∃ payload, IsFramed bincode message payload
  · obtain ⟨payload, framed⟩ := framed
    rw [run_sendIpcMessage_of_isFramed framed] at sent
    exact ⟨payload, framed, written_of_writeAll sent⟩
  · obtain ⟨error, failed⟩ :=
      run_sendIpcMessage_of_not_isFramed (not_exists.mp framed) before
    rw [failed] at sent
    cases sent

/-- A message that has not been sent is on its way at most in part. -/
theorem written_of_sendIpcMessage_failed {before after : Writer (Option ErrorKind)}
    {interrupt : Interrupt}
    (failed : (sendIpcMessage bincode message).run before = .error interrupt after) :
    ∃ cut, CutFrame cut ∧ after.written = before.written ++ cut := by
  by_cases framed : ∃ payload, IsFramed bincode message payload
  · obtain ⟨payload, framed⟩ := framed
    rw [run_sendIpcMessage_of_isFramed framed] at failed
    obtain ⟨written, room⟩ := before
    cases room with
    | none => simp [writeAll, EStateM.run] at failed
    | some limit =>
        obtain ⟨room, broken⟩ := limit
        by_cases fits : (frame payload).length ≤ room
        · simp [writeAll, EStateM.run, fits] at failed
        · obtain ⟨-, rfl⟩ := by simpa [writeAll, EStateM.run, fits] using failed
          refine ⟨(frame payload).take room, ⟨payload, (frame payload).drop room, framed.2, ?_, ?_⟩,
            rfl⟩
          · simpa using Nat.lt_of_not_le fits
          · rw [List.take_append_drop]
  · obtain ⟨error, untouched⟩ :=
      run_sendIpcMessage_of_not_isFramed (not_exists.mp framed) before
    obtain ⟨-, rfl⟩ := by simpa [untouched] using failed
    exact ⟨[], cutFrame_nil, by simp⟩

/-- A frame is received as the message that was sent, and what follows it stays. -/
theorem run_receiveIpcMessage_of_isFramed (roundTrip : bincode.RoundTrip)
    (framed : IsFramed bincode message payload) (rest : Bytes) (ending : Option ErrorKind) :
    (receiveIpcMessage bincode).run ⟨frame payload ++ rest, ending⟩ =
      .ok message ⟨rest, ending⟩ := by
  obtain ⟨encoded, valid⟩ := framed
  rw [receiveIpcMessage, frame, List.append_assoc, EStateM.run_bind,
    run_readExact_append _ (length_beBytes 4 _)]
  simp only [beValue_of_validateFrameLen valid, valid]
  rw [EStateM.run_bind, EStateM.run_liftExcept_ok]
  simp only
  rw [EStateM.run_bind, run_readExact_append _ rfl]
  simp [roundTrip _ _ encoded]

/-- A part of a frame is not received as a message. -/
theorem run_receiveIpcMessage_of_cutFrame {bytes : Bytes} (cut : CutFrame bytes)
    (ending : Option ErrorKind) :
    ∃ after, (receiveIpcMessage bincode).run ⟨bytes, ending⟩ = .error (.ofEnding ending) after := by
  obtain ⟨payload, rest, valid, goes_on, whole⟩ := cut
  have longer : 0 < rest.length := List.length_pos_iff.mpr goes_on
  have lengths := congrArg List.length whole
  rw [length_frame, List.length_append] at lengths
  by_cases short : bytes.length < 4
  · refine ⟨⟨[], ending⟩, ?_⟩
    rw [receiveIpcMessage, EStateM.run_bind, run_readExact_short _ short]
  · obtain ⟨body, rfl⟩ : ∃ body, bytes = beBytes 4 payload.length ++ body := by
      obtain ⟨body, split, -⟩ | ⟨more, split, -⟩ := List.append_eq_append_iff.mp whole
      · exact ⟨body, split⟩
      · have front := congrArg List.length split
        rw [List.length_append, length_beBytes] at front
        obtain rfl : more = [] := List.eq_nil_of_length_eq_zero (by omega)
        exact ⟨[], by simpa using split.symm⟩
    rw [List.length_append, length_beBytes] at lengths
    refine ⟨⟨[], ending⟩, ?_⟩
    rw [receiveIpcMessage, EStateM.run_bind, run_readExact_append _ (length_beBytes 4 _)]
    simp only [beValue_of_validateFrameLen valid, valid]
    rw [EStateM.run_bind, EStateM.run_liftExcept_ok]
    refine EStateM.run_bind_eq_error.mpr (.inl (run_readExact_short _ ?_))
    change body.length < payload.length
    omega

end Ipc

end Etle
