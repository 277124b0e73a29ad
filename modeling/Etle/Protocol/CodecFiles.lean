import Etle.Crypto.Transparent
import Etle.Protocol.CodecStreams

/-!
# Chunks through files

Chunk data passes through files in buffers, with a running remainder on the receiving side and
whatever the system hands out per read on the sending side.  Neither can be seen on the stream: what
is read, written, hashed and reported is what the codec in memory has.
-/

namespace Etle

namespace Codec

/-! ## Sending -/

/-- The pieces in which a file is read are written as the file itself. -/
theorem sendFileContents_eq (granted : Nat → Nat) (round : Nat) (content : Bytes) :
    sendFileContents granted round content = writeAll .io content := by
  fun_induction sendFileContents granted round content with
  | case1 round content some_read ih =>
      rw [ih, ← writeAll_append, List.take_append_drop]
  | case2 round content none_read =>
      have empty : content = [] := by
        unfold fileRead at none_read
        exact List.length_eq_zero_iff.mp (by omega)
      rw [empty, writeAll_nil]

/-- A chunk file of the expected size is sent as the chunk it holds. -/
theorem sendChunkFile_eq_send (bincode : Bincode WireMessage) (granted : Nat → Nat)
    (index : UInt32) {content : Bytes} {expectedSize : UInt64}
    (size : content.length = expectedSize.toNat) :
    sendChunkFile granted index content expectedSize = send bincode (.chunk index content) := by
  have small : ¬content.length > usizeMax := by
    have := expectedSize.toNat_lt
    simp only [usizeMax]
    omega
  rw [send_chunk, sendRawChunkFrame, sendChunkFile, if_neg (not_not.mpr size), if_neg small]
  simp only [sendFileContents_eq]

/-! ## Receiving -/

theorem run_onSource {α : Type} (computation : Source α) (reader : Reader ErrorKind)
    (file : Option Bytes) :
    (onSource computation).run ⟨reader, file⟩ =
      match computation.run reader with
      | .ok value after => .ok value ⟨after, file⟩
      | .error failure after => .error failure ⟨after, file⟩ := by
  simp only [onSource, EStateM.zoom, EStateM.run]
  cases computation reader <;> rfl

/-- Data received buffer by buffer is the data received at once, in the file and in the hasher. -/
theorem run_receivePieces_ok {remaining : Nat} {reader after : Reader ErrorKind} {data : Bytes}
    (read : (readExact ProtocolError.io remaining).run reader = .ok data after)
    (hashed content : Bytes) :
    (receivePieces remaining hashed).run ⟨reader, some content⟩ =
      .ok (hashed ++ data) ⟨after, some (content ++ data)⟩ := by
  induction remaining, hashed using receivePieces.induct generalizing reader data content with
  | case1 remaining hashed positive ih =>
      have cut : remaining = min remaining bufferSize +
          (remaining - min remaining bufferSize) := by omega
      rw [cut, readExact_add] at read
      obtain ⟨front, middle, read_front, read_rest⟩ := EStateM.run_bind_eq_ok.mp read
      obtain ⟨back, last, read_back, joined⟩ := EStateM.run_bind_eq_ok.mp read_rest
      obtain ⟨rfl, rfl⟩ : front ++ back = data ∧ last = after := by simpa using joined
      rw [receivePieces, if_pos positive, EStateM.run_bind, run_onSource, read_front]
      simp only [EStateM.run_bind, appendFile, EStateM.run_modify, Option.map_some]
      rw [ih front read_back (content ++ front), List.append_assoc, List.append_assoc]
  | case2 remaining hashed none_left =>
      obtain rfl : remaining = 0 := by omega
      obtain ⟨rfl, rfl⟩ : [] = data ∧ reader = after := by
        simpa [readExact, EStateM.run, takeExact] using read
      rw [receivePieces, if_neg none_left]
      simp

/-- A stream that ends in the data ends it in both ways of receiving. -/
theorem run_receivePieces_error {remaining : Nat} {reader after : Reader ErrorKind}
    {failure : ProtocolError}
    (read : (readExact ProtocolError.io remaining).run reader = .error failure after)
    (hashed content : Bytes) :
    ∃ file, (receivePieces remaining hashed).run ⟨reader, some content⟩ =
      .error failure ⟨after, file⟩ := by
  induction remaining, hashed using receivePieces.induct generalizing reader content with
  | case1 remaining hashed positive ih =>
      have cut : remaining = min remaining bufferSize +
          (remaining - min remaining bufferSize) := by omega
      rw [cut, readExact_add] at read
      rw [receivePieces, if_pos positive, EStateM.run_bind, run_onSource]
      obtain short | ⟨front, middle, read_front, read_rest⟩ := EStateM.run_bind_eq_error.mp read
      · exact ⟨some content, by rw [short]⟩
      · obtain short | ⟨back, last, read_back, joined⟩ := EStateM.run_bind_eq_error.mp read_rest
        · rw [read_front]
          simp only [EStateM.run_bind, appendFile, EStateM.run_modify, Option.map_some]
          exact ih front short (content ++ front)
        · cases joined
  | case2 remaining hashed none_left =>
      obtain rfl : remaining = 0 := by omega
      simp [readExact, EStateM.run, takeExact] at read

/-- The index and the data of a raw chunk frame that is long enough for its header. -/
theorem receiveRawChunkFrameAfterTag_eq {frameLen : Nat} (enough : ¬frameLen < rawChunkHeaderSize) :
    receiveRawChunkFrameAfterTag frameLen = (do
      let indexBytes ← readExact .io 4
      let data ← readExact .io (frameLen - rawChunkHeaderSize)
      return .chunk (UInt32.ofNat (beValue indexBytes)) data) := by
  rw [receiveRawChunkFrameAfterTag, if_neg enough]
  by_cases some_data : frameLen - rawChunkHeaderSize > 0
  · simp only [some_data, if_true]
  · have no_data : frameLen - rawChunkHeaderSize = 0 := by omega
    simp only [no_data, readExact_zero, pure_bind, Nat.lt_irrefl, if_false, gt_iff_lt]

/-- A raw chunk frame received into memory is received into the file as well. -/
theorem run_receiveRawChunkFrameToFileAfterTag_ok (prims : Primitives) {frameLen : Nat}
    {reader after : Reader ErrorKind} {message : WireMessage}
    (received : (receiveRawChunkFrameAfterTag frameLen).run reader = .ok message after)
    (file : Option Bytes) :
    ∃ index data, message = .chunk index data ∧
      (receiveRawChunkFrameToFileAfterTag prims frameLen).run ⟨reader, file⟩ =
        .ok { index, dataLen := data.length, blake3Hash := prims.blake3 data }
          ⟨after, some data⟩ := by
  by_cases short : frameLen < rawChunkHeaderSize
  · rw [receiveRawChunkFrameAfterTag, if_pos short] at received
    cases received
  · rw [receiveRawChunkFrameAfterTag_eq short] at received
    obtain ⟨indexBytes, middle, read_index, received⟩ := EStateM.run_bind_eq_ok.mp received
    obtain ⟨data, last, read_data, returned⟩ := EStateM.run_bind_eq_ok.mp received
    obtain ⟨rfl, rfl⟩ := by simpa using returned
    refine ⟨_, data, rfl, ?_⟩
    have width : data.length = frameLen - rawChunkHeaderSize := (run_readExact_eq_ok.mp read_data).1
    rw [receiveRawChunkFrameToFileAfterTag, if_neg short]
    simp only [EStateM.run_bind, run_onSource, read_index, createFile, EStateM.run_modify,
      run_receivePieces_ok read_data [] [], List.nil_append, EStateM.run_pure, width]

/-- A raw chunk frame refused in memory is refused on its way into the file. -/
theorem run_receiveRawChunkFrameToFileAfterTag_error (prims : Primitives) {frameLen : Nat}
    {reader after : Reader ErrorKind} {failure : ProtocolError}
    (refused : (receiveRawChunkFrameAfterTag frameLen).run reader = .error failure after)
    (file : Option Bytes) :
    ∃ left, (receiveRawChunkFrameToFileAfterTag prims frameLen).run ⟨reader, file⟩ =
      .error failure ⟨after, left⟩ := by
  by_cases short : frameLen < rawChunkHeaderSize
  · rw [receiveRawChunkFrameAfterTag, if_pos short] at refused
    obtain ⟨rfl, rfl⟩ := by simpa using refused
    rw [receiveRawChunkFrameToFileAfterTag, if_pos short]
    exact ⟨file, rfl⟩
  · rw [receiveRawChunkFrameAfterTag_eq short] at refused
    rw [receiveRawChunkFrameToFileAfterTag, if_neg short]
    simp only [EStateM.run_bind, run_onSource]
    obtain index_short | ⟨indexBytes, middle, read_index, refused⟩ :=
      EStateM.run_bind_eq_error.mp refused
    · exact ⟨file, by rw [index_short]⟩
    · obtain data_short | ⟨data, last, read_data, returned⟩ := EStateM.run_bind_eq_error.mp refused
      · obtain ⟨left, pieces⟩ := run_receivePieces_error data_short [] []
        refine ⟨left, ?_⟩
        simp only [read_index, createFile, EStateM.run_modify, pieces]
      · cases returned

/-! ## Agreement -/

/-- The next frame on a stream is a raw chunk frame. -/
def RawFrameNext (reader : Reader ErrorKind) : Prop :=
  reader.bytes[4]? = some rawChunkFrameTag

/-- Receiving into the file does what receiving into memory does: the same messages, the data of a
raw chunk frame in the file, the same errors, and the same bytes left on the stream. -/
structure ReceivesAlike (bincode : Bincode WireMessage) (prims : Primitives)
    (reader : Reader ErrorKind) (file : Option Bytes) : Prop where
  encoded : ∀ message after, (receive bincode).run reader = .ok message after →
    ¬RawFrameNext reader →
      (receiveChunkToFile bincode prims).run ⟨reader, file⟩ = .ok (.message message) ⟨after, file⟩
  raw : ∀ message after, (receive bincode).run reader = .ok message after →
    RawFrameNext reader → ∃ index data, message = .chunk index data ∧
      (receiveChunkToFile bincode prims).run ⟨reader, file⟩ =
        .ok (.rawChunkFile { index, dataLen := data.length, blake3Hash := prims.blake3 data })
          ⟨after, some data⟩
  failed : ∀ failure after, (receive bincode).run reader = .error failure after →
    ∃ left, (receiveChunkToFile bincode prims).run ⟨reader, file⟩ = .error failure ⟨after, left⟩

theorem bytes_of_readFrameLen {reader after : Reader ErrorKind} {len : Nat}
    (read : readFrameLen.run reader = .ok len after) :
    ∃ lenBytes, lenBytes.length = 4 ∧ reader.bytes = lenBytes ++ after.bytes := by
  obtain ⟨lenBytes, middle, read_len, checked⟩ := EStateM.run_bind_eq_ok.mp read
  obtain ⟨⟨⟩, last, valid, returned⟩ := EStateM.run_bind_eq_ok.mp checked
  obtain ⟨-, rfl⟩ := EStateM.run_liftExcept_eq_ok.mp valid
  obtain ⟨-, rfl⟩ := by simpa using returned
  obtain ⟨width, bytes_eq, -⟩ := run_readExact_eq_ok.mp read_len
  exact ⟨lenBytes, width, bytes_eq⟩

/-- The branch taken after the first byte of the payload is the one the stream shows. -/
theorem rawFrameNext_iff {reader middle after : Reader ErrorKind} {len : Nat} {first : Bytes}
    (read_len : readFrameLen.run reader = .ok len middle)
    (read_first : (readExact ProtocolError.io 1).run middle = .ok first after) :
    RawFrameNext reader ↔ first.headD 0 = rawChunkFrameTag := by
  obtain ⟨lenBytes, width, bytes_eq⟩ := bytes_of_readFrameLen read_len
  obtain ⟨one, middle_eq, -⟩ := run_readExact_eq_ok.mp read_first
  obtain ⟨byte, rfl⟩ := List.length_eq_one_iff.mp one
  rw [RawFrameNext, bytes_eq, middle_eq, List.getElem?_append_right (by omega), width]
  simp

/-- Receiving up to the first byte of the payload is the same on both sides. -/
theorem run_receive_after_first (bincode : Bincode WireMessage) (prims : Primitives)
    {reader middle next : Reader ErrorKind} {len : Nat} {first : Bytes} (file : Option Bytes)
    (read_len : readFrameLen.run reader = .ok len middle)
    (read_first : (readExact ProtocolError.io 1).run middle = .ok first next) :
    (receive bincode).run reader =
        (if first.headD 0 = rawChunkFrameTag then
          receiveRawChunkFrameAfterTag len
        else
          receiveEncodedFrameAfterFirstByte bincode len (first.headD 0)).run next ∧
      (receiveChunkToFile bincode prims).run ⟨reader, file⟩ =
        (if first.headD 0 ≠ rawChunkFrameTag then do
          let message ← onSource (receiveEncodedFrameAfterFirstByte bincode len (first.headD 0))
          return ReceivedChunkFrame.message message
        else do
          let received ← receiveRawChunkFrameToFileAfterTag prims len
          return ReceivedChunkFrame.rawChunkFile received).run ⟨next, file⟩ := by
  constructor
  · rw [receive, EStateM.run_bind, read_len]
    simp only [EStateM.run_bind, read_first]
  · rw [receiveChunkToFile, EStateM.run_bind, run_onSource, read_len]
    simp only [EStateM.run_bind, run_onSource, read_first]

/-- Receiving fails on both sides when the stream has no length or no first byte to offer. -/
theorem run_receive_before_first (bincode : Bincode WireMessage) (prims : Primitives)
    {reader after : Reader ErrorKind} {failure : ProtocolError} (file : Option Bytes)
    (short : readFrameLen.run reader = .error failure after ∨
      ∃ len middle, readFrameLen.run reader = .ok len middle ∧
        (readExact ProtocolError.io 1).run middle = .error failure after) :
    (receive bincode).run reader = .error failure after ∧
      (receiveChunkToFile bincode prims).run ⟨reader, file⟩ = .error failure ⟨after, file⟩ := by
  rw [receive, receiveChunkToFile, EStateM.run_bind, EStateM.run_bind, run_onSource]
  obtain no_len | ⟨len, middle, read_len, no_first⟩ := short
  · rw [no_len]
    exact ⟨rfl, rfl⟩
  · rw [read_len]
    simp only [EStateM.run_bind, run_onSource, no_first, and_self]

theorem receivesAlike (bincode : Bincode WireMessage) (prims : Primitives)
    (reader : Reader ErrorKind) (file : Option Bytes) :
    ReceivesAlike bincode prims reader file := by
  have of_short : ∀ failure after, (receive bincode).run reader = .error failure after →
      (receiveChunkToFile bincode prims).run ⟨reader, file⟩ = .error failure ⟨after, file⟩ →
      ReceivesAlike bincode prims reader file := by
    intro failure after in_memory to_file
    refine ⟨?_, ?_, ?_⟩
    · intro message state received
      rw [in_memory] at received
      cases received
    · intro message state received
      rw [in_memory] at received
      cases received
    · intro other state refused
      obtain ⟨rfl, rfl⟩ := by simpa [in_memory] using refused
      exact ⟨file, to_file⟩
  cases read_len : readFrameLen.run reader with
  | error failure after =>
      have both := run_receive_before_first bincode prims file (.inl read_len)
      exact of_short failure after both.1 both.2
  | ok len middle =>
      cases read_first : (readExact ProtocolError.io 1).run middle with
      | error failure after =>
          have both := run_receive_before_first bincode prims file
            (.inr ⟨len, middle, read_len, read_first⟩)
          exact of_short failure after both.1 both.2
      | ok first next =>
          obtain ⟨in_memory, to_file⟩ :=
            run_receive_after_first bincode prims file read_len read_first
          have next_frame := rawFrameNext_iff read_len read_first
          by_cases tagged : first.headD 0 = rawChunkFrameTag
          · rw [if_pos tagged] at in_memory
            rw [if_neg (not_not.mpr tagged), EStateM.run_bind] at to_file
            refine ⟨fun _ _ _ untagged => absurd (next_frame.mpr tagged) untagged, ?_, ?_⟩
            · intro message after received _
              obtain ⟨index, data, is_chunk, into_file⟩ :=
                run_receiveRawChunkFrameToFileAfterTag_ok prims (in_memory ▸ received) file
              exact ⟨index, data, is_chunk, by rw [to_file, into_file]; rfl⟩
            · intro failure after refused
              obtain ⟨left, into_file⟩ :=
                run_receiveRawChunkFrameToFileAfterTag_error prims (in_memory ▸ refused) file
              exact ⟨left, by rw [to_file, into_file]⟩
          · rw [if_neg tagged] at in_memory
            rw [if_pos tagged, EStateM.run_bind, run_onSource, ← in_memory] at to_file
            refine ⟨?_, fun _ _ _ raw => absurd (next_frame.mp raw) tagged, ?_⟩
            · intro message after received _
              rw [to_file, received]
              rfl
            · intro failure after refused
              exact ⟨file, by rw [to_file, refused]⟩

/-- The codec through files agrees with the codec in memory in both directions. -/
theorem fileCodec_agrees (bincode : Bincode WireMessage) (prims : Primitives) :
    (∀ reader file, ReceivesAlike bincode prims reader file) ∧
    (∀ granted index content (expectedSize : UInt64) writer,
      content.length = expectedSize.toNat →
        (sendChunkFile granted index content expectedSize).run writer =
          (send bincode (.chunk index content)).run writer) := by
  refine ⟨receivesAlike bincode prims, ?_⟩
  intro granted index content expectedSize writer size
  rw [sendChunkFile_eq_send bincode granted index size]

/-- A file of three bytes is sent as a frame that arrives in another file. -/
theorem fileCodec_agrees_three_bytes :
    (sendChunkFile (fun _ => 2) 7 [1, 2, 3] 3).run ⟨[], none⟩ =
        .ok () ⟨[0, 0, 0, 8, 0xec, 0, 0, 0, 7, 1, 2, 3], none⟩ ∧
      (receiveChunkToFile wireBincode transparentPrimitives).run
          ⟨⟨[0, 0, 0, 8, 0xec, 0, 0, 0, 7, 1, 2, 3], .unexpectedEof⟩, none⟩ =
        .ok (.rawChunkFile { index := 7, dataLen := 3, blake3Hash := transparentHash [1, 2, 3] })
          ⟨⟨[], .unexpectedEof⟩, some [1, 2, 3]⟩ := by
  obtain ⟨receives, sends⟩ := fileCodec_agrees wireBincode transparentPrimitives
  constructor
  · rw [sends _ _ _ _ _ rfl]
    rfl
  · obtain ⟨index, data, is_chunk, into_file⟩ :=
      (receives ⟨[0, 0, 0, 8, 0xec, 0, 0, 0, 7, 1, 2, 3], .unexpectedEof⟩ none).raw
        (.chunk 7 [1, 2, 3]) ⟨[], .unexpectedEof⟩ rfl rfl
    obtain ⟨rfl, rfl⟩ : 7 = index ∧ [1, 2, 3] = data := by simpa using is_chunk
    exact into_file

end Codec

end Etle
