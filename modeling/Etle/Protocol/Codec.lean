import Etle.Foundations.ByteCodec
import Etle.Foundations.ByteStream
import Etle.Protocol.Message

/-!
# Frames on the wire

A frame is a length in four bytes followed by so many bytes of payload.  A payload is either the
serialisation of a message or, after a tag byte no serialisation starts with, the index and the data
of one chunk.  Chunks are sent from memory or from a file and received into memory or into a file.
-/

namespace Etle

namespace Codec

/-- The first byte of a raw chunk frame. -/
def rawChunkFrameTag : UInt8 := 0xec

/-- The tag and the index in front of the data of a raw chunk frame. -/
def rawChunkHeaderSize : Nat := 1 + 4

/-- The largest value of a `usize`. -/
def usizeMax : Nat := 2 ^ 64 - 1

/-- Addition of `usize` values that reports overflow. -/
def checkedAdd (left right : Nat) : Option Nat :=
  if left + right ≤ usizeMax then some (left + right) else none

/-- The buffer through which chunk files pass. -/
def bufferSize : Nat := 64 * 1024

/-- A computation that writes to a stream. -/
abbrev Sink := EStateM ProtocolError (Writer ErrorKind)

/-- A computation that reads from a stream. -/
abbrev Source := EStateM ProtocolError (Reader ErrorKind)

/-- A frame has at least one byte and at most `maxFrameSize`. -/
def validateFrameLen (len : Nat) : Except ProtocolError Unit :=
  if len = 0 then .error .emptyFrame
  else if len > maxFrameSize then .error (.frameTooLarge len maxFrameSize)
  else .ok ()

/-- Read and check the length of the next frame. -/
def readFrameLen : Source Nat := do
  let lenBytes ← readExact .io 4
  let len := beValue lenBytes
  EStateM.liftExcept id (validateFrameLen len)
  return len

/-! ## In memory -/

/-- Send a chunk as a raw frame. -/
def sendRawChunkFrame (index : UInt32) (data : Bytes) : Sink Unit := do
  let some frameLen := checkedAdd rawChunkHeaderSize data.length
    | throw (.frameTooLarge usizeMax maxFrameSize)
  EStateM.liftExcept id (validateFrameLen frameLen)
  writeAll .io (beBytes 4 frameLen)
  writeAll .io [rawChunkFrameTag]
  writeAll .io (beBytes 4 index.toNat)
  writeAll .io data

/-- Receive the rest of a raw chunk frame. -/
def receiveRawChunkFrameAfterTag (frameLen : Nat) : Source WireMessage := do
  if frameLen < rawChunkHeaderSize then
    throw (.invalidRawChunkFrame "frame is smaller than raw chunk header")
  let indexBytes ← readExact .io 4
  let index := UInt32.ofNat (beValue indexBytes)
  let dataLen := frameLen - rawChunkHeaderSize
  if dataLen > 0 then
    let data ← readExact .io dataLen
    return .chunk index data
  else
    return .chunk index []

variable (bincode : Bincode WireMessage)

/-- Send one message. -/
def send (message : WireMessage) : Sink Unit := do
  if let .chunk index data := message then
    sendRawChunkFrame index data
  else
    let some payload := bincode.encodeToVec message
      | throw .encode
    EStateM.liftExcept id (validateFrameLen payload.length)
    writeAll .io (beBytes 4 payload.length)
    writeAll .io payload

/-- Fill the payload buffer behind a byte already read. -/
def readPayloadAfterFirstByte (frameLen : Nat) (firstByte : UInt8) : Source Bytes :=
  if frameLen > 1 then do
    let others ← readExact .io (frameLen - 1)
    return firstByte :: others
  else
    return [firstByte]

/-- Receive the rest of a serialised message. -/
def receiveEncodedFrameAfterFirstByte (frameLen : Nat) (firstByte : UInt8) :
    Source WireMessage := do
  let payload ← readPayloadAfterFirstByte frameLen firstByte
  let some (message, bytesRead) := bincode.decodeFromSlice payload
    | throw .decode
  if bytesRead ≠ payload.length then
    throw (.trailingBytes bytesRead payload.length)
  return message

/-- Receive one message. -/
def receive : Source WireMessage := do
  let len ← readFrameLen
  let first := (← readExact .io 1).headD 0
  if first = rawChunkFrameTag then
    receiveRawChunkFrameAfterTag len
  else
    receiveEncodedFrameAfterFirstByte bincode len first

/-! ## Through files -/

/-- How many bytes one read of a file returns: at most a buffer, and at least one while there are
any.  How many the system hands out at a time is not known. -/
def fileRead (granted : Nat) (content : Bytes) : Nat :=
  min content.length (max 1 (min granted bufferSize))

theorem fileRead_pos {granted : Nat} {content : Bytes} (some_read : fileRead granted content ≠ 0) :
    0 < content.length := by
  unfold fileRead at some_read
  omega

/-- Send the rest of a file buffer by buffer. -/
def sendFileContents (granted : Nat → Nat) (round : Nat) (content : Bytes) : Sink Unit :=
  if some_read : fileRead (granted round) content ≠ 0 then do
    writeAll .io (content.take (fileRead (granted round) content))
    sendFileContents granted (round + 1) (content.drop (fileRead (granted round) content))
  else
    pure ()
termination_by content.length
decreasing_by
  have := fileRead_pos some_read
  rw [List.length_drop]
  omega

/-- Send a chunk file as a raw frame. -/
def sendChunkFile (granted : Nat → Nat) (index : UInt32) (file : Bytes) (expectedSize : UInt64) :
    Sink Unit := do
  let actualSize := file.length
  if actualSize ≠ expectedSize.toNat then
    throw (.rawChunkSizeMismatch expectedSize.toNat actualSize)
  if actualSize > usizeMax then
    throw (.frameTooLarge usizeMax maxFrameSize)
  let some frameLen := checkedAdd rawChunkHeaderSize actualSize
    | throw (.frameTooLarge usizeMax maxFrameSize)
  EStateM.liftExcept id (validateFrameLen frameLen)
  writeAll .io (beBytes 4 frameLen)
  writeAll .io [rawChunkFrameTag]
  writeAll .io (beBytes 4 index.toNat)
  sendFileContents granted 0 file

/-- A stream and the file that chunk data received from it goes to. -/
structure FileTarget where
  stream : Reader ErrorKind
  /-- The content of the output path, if there is a file. -/
  file : Option Bytes

/-- A computation that receives from a stream into a file. -/
abbrev IntoFile := EStateM ProtocolError FileTarget

/-- Read from the stream alone. -/
def onSource {α : Type} (computation : Source α) : IntoFile α :=
  computation.zoom FileTarget.stream (fun stream target => { target with stream }) id

/-- Create or truncate the output file. -/
def createFile : IntoFile Unit := modify fun target => { target with file := some [] }

/-- Append to the output file. -/
def appendFile (bytes : Bytes) : IntoFile Unit :=
  modify fun target => { target with file := target.file.map (· ++ bytes) }

/-- What a raw chunk frame received into a file was. -/
structure ReceivedRawChunkFile where
  index : UInt32
  dataLen : Nat
  blake3Hash : Bytes32
  deriving DecidableEq

/-- What was received: a chunk in the file, or a message. -/
inductive ReceivedChunkFrame where
  | rawChunkFile (received : ReceivedRawChunkFile)
  | message (message : WireMessage)
  deriving DecidableEq

/-- Receive the remaining data buffer by buffer, with the bytes fed to the hasher so far. -/
def receivePieces (remaining : Nat) (hashed : Bytes) : IntoFile Bytes :=
  if remaining > 0 then do
    let buffer ← onSource (readExact .io (min remaining bufferSize))
    appendFile buffer
    receivePieces (remaining - min remaining bufferSize) (hashed ++ buffer)
  else
    pure hashed
termination_by remaining
decreasing_by
  have positive : 0 < bufferSize := by decide
  omega

variable (prims : Primitives)

/-- Receive the rest of a raw chunk frame into the file. -/
def receiveRawChunkFrameToFileAfterTag (frameLen : Nat) : IntoFile ReceivedRawChunkFile := do
  if frameLen < rawChunkHeaderSize then
    throw (.invalidRawChunkFrame "frame is smaller than raw chunk header")
  let indexBytes ← onSource (readExact .io 4)
  let index := UInt32.ofNat (beValue indexBytes)
  let dataLen := frameLen - rawChunkHeaderSize
  createFile
  let hashed ← receivePieces dataLen []
  return { index, dataLen, blake3Hash := prims.blake3 hashed }

/-- Receive one message, with the data of a raw chunk frame in the file. -/
def receiveChunkToFile : IntoFile ReceivedChunkFrame := do
  let len ← onSource readFrameLen
  let first := (← onSource (readExact .io 1)).headD 0
  if first ≠ rawChunkFrameTag then
    let message ← onSource (receiveEncodedFrameAfterFirstByte bincode len first)
    return .message message
  else
    let received ← receiveRawChunkFrameToFileAfterTag prims len
    return .rawChunkFile received

end Codec

end Etle
