import Etle.Protocol.Codec
import Etle.Protocol.WireCodec

/-!
# Messages over one stream

Every successful send puts one frame on the stream, and receiving takes exactly this frame off it
again: the tag of a raw chunk frame is not the index of a variant, and both sides count the same
header.  So a list of messages comes out of the stream as it went in.
-/

namespace Etle

namespace Codec

/-- The tag of raw chunk frames starts no serialised message. -/
theorem variantIndex_ne_rawChunkFrameTag (message : WireMessage) :
    message.variantIndex ≠ rawChunkFrameTag := by
  cases message <;> simp [WireMessage.variantIndex, rawChunkFrameTag]

theorem validateFrameLen_eq_ok {len : Nat} :
    validateFrameLen len = .ok () ↔ 0 < len ∧ len ≤ maxFrameSize := by
  unfold validateFrameLen
  split
  · simp_all
  · split
    · simp only [reduceCtorEq, false_iff]
      omega
    · simp only [true_iff]
      omega

/-- The payload behind its length. -/
def frameOf (payload : Bytes) : Bytes := beBytes 4 payload.length ++ payload

/-- The payload of a raw chunk frame. -/
def rawPayload (index : UInt32) (data : Bytes) : Bytes :=
  rawChunkFrameTag :: (beBytes 4 index.toNat ++ data)

@[simp]
theorem length_rawPayload (index : UInt32) (data : Bytes) :
    (rawPayload index data).length = rawChunkHeaderSize + data.length := by
  simp [rawPayload, rawChunkHeaderSize]
  omega

/-- Write a payload behind its length, once this length has been checked. -/
def sendPayload (payload : Bytes) : Sink Unit := do
  EStateM.liftExcept id (validateFrameLen payload.length)
  writeAll .io (frameOf payload)

/-- A raw chunk frame is the checked frame of its payload, unless its length overflows. -/
theorem sendRawChunkFrame_eq {index : UInt32} {data : Bytes}
    (fits : rawChunkHeaderSize + data.length ≤ usizeMax) :
    sendRawChunkFrame index data = sendPayload (rawPayload index data) := by
  have header : frameOf (rawPayload index data) =
      beBytes 4 (rawChunkHeaderSize + data.length) ++
        ([rawChunkFrameTag] ++ (beBytes 4 index.toNat ++ data)) := by
    rw [frameOf, length_rawPayload]
    rfl
  rw [sendRawChunkFrame, checkedAdd, if_pos fits, sendPayload, header, length_rawPayload,
    writeAll_append, writeAll_append, writeAll_append]

theorem sendRawChunkFrame_overflow {index : UInt32} {data : Bytes}
    (overflow : ¬rawChunkHeaderSize + data.length ≤ usizeMax) :
    sendRawChunkFrame index data = throw (.frameTooLarge usizeMax maxFrameSize) := by
  rw [sendRawChunkFrame, checkedAdd, if_neg overflow]

theorem run_sendPayload_eq_ok {payload : Bytes} {before after : Writer ErrorKind} :
    (sendPayload payload).run before = .ok () after ↔
      (0 < payload.length ∧ payload.length ≤ maxFrameSize) ∧
        (writeAll ProtocolError.io (frameOf payload)).run before = .ok () after := by
  rw [sendPayload, EStateM.run_bind_eq_ok]
  constructor
  · rintro ⟨⟨⟩, middle, checked, wrote⟩
    obtain ⟨valid, rfl⟩ := EStateM.run_liftExcept_eq_ok.mp checked
    exact ⟨validateFrameLen_eq_ok.mp valid, wrote⟩
  · rintro ⟨valid, wrote⟩
    exact ⟨(), before, EStateM.run_liftExcept_eq_ok.mpr
      ⟨validateFrameLen_eq_ok.mpr valid, rfl⟩, wrote⟩

/-- A frame that is refused for its length has not been started. -/
theorem untouched_of_sendPayload {payload : Bytes} {before after : Writer ErrorKind}
    {len max : Nat}
    (run : (sendPayload payload).run before = .error (.frameTooLarge len max) after) :
    after = before := by
  rw [sendPayload, EStateM.run_bind_eq_error] at run
  obtain refused | ⟨⟨⟩, middle, checked, wrote⟩ := run
  · cases valid : validateFrameLen payload.length with
    | error failure =>
        rw [valid] at refused
        obtain ⟨-, rfl⟩ := by simpa using refused
        rfl
    | ok _ =>
        rw [valid] at refused
        cases refused
  · obtain ⟨broken, io⟩ := error_of_writeAll wrote
    cases io

variable (bincode : Bincode WireMessage)

/-- The payload a message is sent as. -/
def payloadOf : WireMessage → Option Bytes
  | .chunk index data => some (rawPayload index data)
  | message => bincode.encodeToVec message

variable {bincode}

theorem send_chunk (index : UInt32) (data : Bytes) :
    send bincode (.chunk index data) = sendRawChunkFrame index data := rfl

theorem send_encoded {message : WireMessage} (encoded : ∀ index data, message ≠ .chunk index data) :
    send bincode message =
      match bincode.encodeToVec message with
      | some payload => sendPayload payload
      | none => throw .encode := by
  generalize written : bincode.encodeToVec message = outcome
  cases message with
  | chunk index data => exact absurd rfl (encoded index data)
  | _ =>
      rw [send, written]
      · cases outcome with
        | none => rfl
        | some payload => simp only [sendPayload, frameOf, writeAll_append]
      · exact encoded

/-- A successful send has put exactly the frame of the message on the stream. -/
theorem run_send_eq_ok {message : WireMessage} {before after : Writer ErrorKind}
    (run : (send bincode message).run before = .ok () after) :
    ∃ payload, payloadOf bincode message = some payload ∧
      (0 < payload.length ∧ payload.length ≤ maxFrameSize) ∧
      after.written = before.written ++ frameOf payload := by
  have of_payload : ∀ payload, (sendPayload payload).run before = .ok () after →
      (0 < payload.length ∧ payload.length ≤ maxFrameSize) ∧
        after.written = before.written ++ frameOf payload := by
    intro payload sent
    obtain ⟨valid, wrote⟩ := run_sendPayload_eq_ok.mp sent
    exact ⟨valid, written_of_writeAll wrote⟩
  by_cases raw : ∃ index data, message = .chunk index data
  · obtain ⟨index, data, rfl⟩ := raw
    rw [send_chunk] at run
    by_cases fits : rawChunkHeaderSize + data.length ≤ usizeMax
    · rw [sendRawChunkFrame_eq fits] at run
      exact ⟨rawPayload index data, rfl, of_payload _ run⟩
    · rw [sendRawChunkFrame_overflow fits] at run
      cases run
  · push Not at raw
    rw [send_encoded raw] at run
    split at run
    · rename_i payload encoded
      refine ⟨payload, ?_, of_payload _ run⟩
      cases message with
      | chunk index data => exact absurd rfl (raw index data)
      | _ => exact encoded
    · cases run

/-- A send that reports a frame that is too large has written nothing. -/
theorem untouched_of_send {message : WireMessage} {before after : Writer ErrorKind}
    {len max : Nat}
    (run : (send bincode message).run before = .error (.frameTooLarge len max) after) :
    after = before := by
  by_cases raw : ∃ index data, message = .chunk index data
  · obtain ⟨index, data, rfl⟩ := raw
    rw [send_chunk] at run
    by_cases fits : rawChunkHeaderSize + data.length ≤ usizeMax
    · rw [sendRawChunkFrame_eq fits] at run
      exact untouched_of_sendPayload run
    · rw [sendRawChunkFrame_overflow fits] at run
      obtain ⟨-, rfl⟩ := by simpa using run
      rfl
  · push Not at raw
    rw [send_encoded raw] at run
    split at run
    · exact untouched_of_sendPayload run
    · cases run

/-! ## Receiving what was sent -/

theorem run_readFrameLen {len : Nat} (valid : 0 < len ∧ len ≤ maxFrameSize) (rest : Bytes)
    (ending : ErrorKind) :
    readFrameLen.run ⟨beBytes 4 len ++ rest, ending⟩ = .ok len ⟨rest, ending⟩ := by
  have fits : len < 256 ^ 4 := by
    have bound : len ≤ 64 * 1024 * 1024 := valid.2
    omega
  rw [readFrameLen, EStateM.run_bind, run_readExact_append _ (length_beBytes 4 len)]
  simp [-bind_pure_comp, beValue_beBytes fits, validateFrameLen_eq_ok.mpr valid]

/-- The first byte of the payload decides how the rest of a frame is received. -/
theorem run_receive_cons {first : UInt8} {others : Bytes}
    (valid : (first :: others).length ≤ maxFrameSize) (rest : Bytes) (ending : ErrorKind) :
    (receive bincode).run ⟨frameOf (first :: others) ++ rest, ending⟩ =
      (if first = rawChunkFrameTag then
        receiveRawChunkFrameAfterTag (first :: others).length
      else
        receiveEncodedFrameAfterFirstByte bincode (first :: others).length first).run
          ⟨others ++ rest, ending⟩ := by
  have nonempty : 0 < (first :: others).length ∧ (first :: others).length ≤ maxFrameSize :=
    ⟨by simp, valid⟩
  have one : (readExact ProtocolError.io 1).run ⟨first :: (others ++ rest), ending⟩ =
      .ok [first] ⟨others ++ rest, ending⟩ :=
    run_readExact_append ProtocolError.io (show [first].length = 1 from rfl) _ _
  rw [receive, frameOf, List.append_assoc, EStateM.run_bind, run_readFrameLen nonempty]
  simp only [List.cons_append, EStateM.run_bind, one, List.headD_cons]
  rfl

theorem run_receiveRawChunkFrameAfterTag {index : UInt32} {data : Bytes} (rest : Bytes)
    (ending : ErrorKind) :
    (receiveRawChunkFrameAfterTag (rawChunkHeaderSize + data.length)).run
        ⟨beBytes 4 index.toNat ++ data ++ rest, ending⟩ =
      .ok (.chunk index data) ⟨rest, ending⟩ := by
  have long_enough : ¬rawChunkHeaderSize + data.length < rawChunkHeaderSize := by omega
  have back : UInt32.ofNat (beValue (beBytes 4 index.toNat)) = index := by
    rw [beValue_beBytes index.toNat_lt, UInt32.ofNat_toNat]
  rw [receiveRawChunkFrameAfterTag, if_neg long_enough]
  simp only [EStateM.run_bind, List.append_assoc, Nat.add_sub_cancel_left,
    run_readExact_append ProtocolError.io (length_beBytes 4 index.toNat), back]
  by_cases some_data : data.length > 0
  · rw [if_pos some_data, EStateM.run_bind, run_readExact_append _ rfl]
    rfl
  · obtain rfl : data = [] := by simpa using some_data
    rfl

theorem run_readPayloadAfterFirstByte {first : UInt8} {others : Bytes} (rest : Bytes)
    (ending : ErrorKind) :
    (readPayloadAfterFirstByte (first :: others).length first).run ⟨others ++ rest, ending⟩ =
      .ok (first :: others) ⟨rest, ending⟩ := by
  cases others with
  | nil => rfl
  | cons second others =>
      rw [readPayloadAfterFirstByte, if_pos (by simp), EStateM.run_bind,
        run_readExact_append _ (by simp)]
      rfl

theorem run_receiveEncodedFrameAfterFirstByte {first : UInt8} {others : Bytes} (rest : Bytes)
    (ending : ErrorKind) {message : WireMessage}
    (decoded : bincode.decodeFromSlice (first :: others) =
      some (message, (first :: others).length)) :
    (receiveEncodedFrameAfterFirstByte bincode (first :: others).length first).run
        ⟨others ++ rest, ending⟩ =
      .ok message ⟨rest, ending⟩ := by
  rw [receiveEncodedFrameAfterFirstByte, EStateM.run_bind, run_readPayloadAfterFirstByte]
  simp [decoded]

/-- Receiving takes the frame of a message off the stream and returns this message. -/
theorem run_receive_frameOf (roundTrip : bincode.RoundTrip)
    (starts : bincode.StartsWithVariant WireMessage.variantIndex) {message : WireMessage}
    {payload : Bytes} (sent : payloadOf bincode message = some payload)
    (valid : 0 < payload.length ∧ payload.length ≤ maxFrameSize) (rest : Bytes)
    (ending : ErrorKind) :
    (receive bincode).run ⟨frameOf payload ++ rest, ending⟩ = .ok message ⟨rest, ending⟩ := by
  by_cases raw : ∃ index data, message = .chunk index data
  · obtain ⟨index, data, rfl⟩ := raw
    obtain rfl : rawPayload index data = payload := by simpa [payloadOf] using sent
    rw [rawPayload] at valid ⊢
    rw [run_receive_cons valid.2, if_pos rfl, ← rawPayload, length_rawPayload]
    exact run_receiveRawChunkFrameAfterTag rest ending
  · have encoded : bincode.encodeToVec message = some payload := by
      cases message with
      | chunk index data => exact absurd ⟨index, data, rfl⟩ raw
      | _ => exact sent
    cases payload with
    | nil => simp at valid
    | cons first others =>
        have first_eq : first = message.variantIndex := by
          simpa using starts message _ encoded
        have not_tag : first ≠ rawChunkFrameTag := by
          rw [first_eq]
          exact variantIndex_ne_rawChunkFrameTag message
        rw [run_receive_cons valid.2, if_neg not_tag]
        exact run_receiveEncodedFrameAfterFirstByte rest ending (roundTrip _ _ encoded)

/-! ## Whole streams -/

variable (bincode) in
/-- Send messages one after another. -/
def sendAll : List WireMessage → Sink Unit
  | [] => pure ()
  | message :: rest => do
      send bincode message
      sendAll rest

variable (bincode) in
/-- Receive so many messages. -/
def receiveMany : Nat → Source (List WireMessage)
  | 0 => pure []
  | count + 1 => do
      let message ← receive bincode
      let rest ← receiveMany count
      return message :: rest

/-- Messages that were all sent are received as they were sent, from exactly the bytes written. -/
theorem receiveMany_of_sendAll (roundTrip : bincode.RoundTrip)
    (starts : bincode.StartsWithVariant WireMessage.variantIndex)
    {messages : List WireMessage} {before after : Writer ErrorKind}
    (sent : (sendAll bincode messages).run before = .ok () after) :
    ∃ bytes, after.written = before.written ++ bytes ∧
      ∀ rest ending, (receiveMany bincode messages.length).run ⟨bytes ++ rest, ending⟩ =
        .ok messages ⟨rest, ending⟩ := by
  induction messages generalizing before with
  | nil =>
      obtain rfl : before = after := by simpa [sendAll] using sent
      exact ⟨[], by simp, fun _ _ => rfl⟩
  | cons message messages ih =>
      obtain ⟨⟨⟩, middle, sent_first, sent_rest⟩ := EStateM.run_bind_eq_ok.mp sent
      obtain ⟨payload, is_payload, valid, wrote⟩ := run_send_eq_ok sent_first
      obtain ⟨bytes, wrote_rest, receives⟩ := ih sent_rest
      refine ⟨frameOf payload ++ bytes, by rw [wrote_rest, wrote, List.append_assoc], ?_⟩
      intro rest ending
      rw [List.length_cons, receiveMany, List.append_assoc, EStateM.run_bind,
        run_receive_frameOf roundTrip starts is_payload valid]
      simp [-bind_pure_comp, receives]

/-- A stream carries any messages that could be sent from one end to the other, and a message that
is refused for its size leaves the stream as it was. -/
theorem stream_roundTrip (roundTrip : bincode.RoundTrip)
    (starts : bincode.StartsWithVariant WireMessage.variantIndex) :
    (∀ messages before after, (sendAll bincode messages).run before = .ok () after →
      ∃ bytes, after.written = before.written ++ bytes ∧
        ∀ rest ending, (receiveMany bincode messages.length).run ⟨bytes ++ rest, ending⟩ =
          .ok messages ⟨rest, ending⟩) ∧
    (∀ message before after len max,
      (send bincode message).run before = .error (.frameTooLarge len max) after →
        after = before) :=
  ⟨fun _ _ _ sent => receiveMany_of_sendAll roundTrip starts sent,
    fun _ _ _ _ _ refused => untouched_of_send refused⟩

/-- A greeting, a chunk and a request cross one stream. -/
theorem stream_roundTrip_greeting :
    ∃ bytes, (sendAll wireBincode [.hello "a", .chunk 7 [1, 2, 3], .requestManifest]).run
        ⟨[], none⟩ = .ok () ⟨bytes, none⟩ ∧
      (receiveMany wireBincode 3).run ⟨bytes, .unexpectedEof⟩ =
        .ok [.hello "a", .chunk 7 [1, 2, 3], .requestManifest] ⟨[], .unexpectedEof⟩ := by
  have sent : (sendAll wireBincode [.hello "a", .chunk 7 [1, 2, 3], .requestManifest]).run
      ⟨[], none⟩ = .ok () ⟨[0, 0, 0, 3, 0, 1, 97, 0, 0, 0, 8, 0xec, 0, 0, 0, 7, 1, 2, 3,
        0, 0, 0, 1, 4], none⟩ := by rfl
  obtain ⟨bytes, written, receives⟩ :=
    (stream_roundTrip wireBincode_roundTrip wireBincode_startsWithVariant).1 _ _ _ sent
  rw [List.nil_append] at written
  subst written
  exact ⟨_, sent, by simpa using receives [] .unexpectedEof⟩

end Codec

end Etle
