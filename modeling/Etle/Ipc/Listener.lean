import Etle.Foundations.ByteCodec
import Etle.Foundations.ByteStream
import Etle.Ipc.Commands

/-!
# The loop that answers local clients

The daemon accepts one connection after another, reads one command from it and answers.  Only a
client that is gone when the answer is written is forgiven; every other failure of a connection ends
the loop, and with it the daemon.
-/

namespace Etle

namespace Ipc

/-- The largest frame on a local connection. -/
def maxIpcFrameSize : Nat := 4 * 1024 * 1024

/-- Why a computation on a connection does not go on: it waits for a client that neither acts nor
closes, or it has failed. -/
inductive Interrupt where
  | pending
  | failed (error : IpcError)
  deriving DecidableEq

/-- What is found at the end of a stream: nothing yet, or an error. -/
def Interrupt.ofEnding : Option ErrorKind → Interrupt
  | none => .pending
  | some kind => .failed (.io kind)

/-- One connection of a client, and what the daemon finds while it answers. -/
structure Client where
  stream : Reader (Option ErrorKind)
  sink : Writer (Option ErrorKind)
  view : DaemonView

/-! ## Frames -/

/-- A frame has at least one byte and at most `maxIpcFrameSize`. -/
def validateFrameLen (len : Nat) : Except IpcError Unit :=
  if len = 0 then .error .emptyFrame
  else if len > maxIpcFrameSize then .error (.frameTooLarge len maxIpcFrameSize)
  else .ok ()

/-- Send one message. -/
def sendIpcMessage {α : Type} (bincode : Bincode α) (message : α) :
    EStateM Interrupt (Writer (Option ErrorKind)) Unit := do
  let some payload := bincode.encodeToVec message
    | throw (.failed .encode)
  EStateM.liftExcept Interrupt.failed (validateFrameLen payload.length)
  writeAll Interrupt.ofEnding (beBytes 4 payload.length)
  writeAll Interrupt.ofEnding payload

/-- Receive one message. -/
def receiveIpcMessage {α : Type} (bincode : Bincode α) :
    EStateM Interrupt (Reader (Option ErrorKind)) α := do
  let lenBytes ← readExact Interrupt.ofEnding 4
  let len := beValue lenBytes
  EStateM.liftExcept Interrupt.failed (validateFrameLen len)
  let payload ← readExact Interrupt.ofEnding len
  let some (message, bytesRead) := bincode.decodeFromSlice payload
    | throw (.failed .decode)
  if bytesRead ≠ payload.length then
    throw (.failed (.trailingBytes bytesRead payload.length))
  return message

/-! ## The loop -/

/-- The client was gone before the answer was written. -/
def isDisconnectedClient : IpcError → Bool
  | .io .brokenPipe | .io .connectionReset | .io .connectionAborted | .io .notConnected
  | .io .unexpectedEof => true
  | _ => false

section

variable (commands : Bincode IpcCommand) (responses : Bincode IpcResponse)

/-- Write the answer; a client that is gone does not matter. -/
def sendResponseOrIgnoreClosedClient (sink : Writer (Option ErrorKind)) (response : IpcResponse)
    (shouldShutdown : Bool) : Except Interrupt Bool :=
  match (sendIpcMessage responses response).run sink with
  | .ok _ _ => .ok shouldShutdown
  | .error (.failed error) _ =>
      if isDisconnectedClient error then .ok shouldShutdown else .error (.failed error)
  | .error .pending _ => .error .pending

/-- Answer one connection; the result tells whether to shut down.  A subscription goes on in a task
of its own. -/
def once (client : Client) : Except Interrupt Bool :=
  match (receiveIpcMessage commands).run client.stream with
  | .error interrupt _ => .error interrupt
  | .ok .subscribeEvents _ => .ok false
  | .ok command _ =>
      sendResponseOrIgnoreClosedClient responses client.sink (handleAsync client.view command)
        (command = .shutdown)

end

end Ipc

end Etle
