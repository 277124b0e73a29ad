import Etle.Transfer.Serve
import Etle.Transfer.WindowMoves

/-!
# A windowed client and a serving peer

The windowed download loop and the chunk loop of a server, joined by two first-in first-out
channels.  Requests in flight are either still on their way to the server, or answered and on their
way back, or in the client's hand.
-/

namespace Etle

open Std (TreeMap TreeSet)

/-- Where the chunk loop of the server stands. -/
inductive ServerPhase where
  | serving
  | left (outcome : Except NetworkError Unit)

/-- Both sides of a transfer and what is on its way between them. -/
structure Exchange where
  client : WindowedDownload
  toServer : List WireMessage
  toClient : List Frame
  servedOrKnown : TreeSet UInt32
  server : ServerPhase

/-- The steps of either side.  Sends can only fail once the server has left. -/
inductive ExchangeEvent where
  | request (failure : Option ErrorKind)
  | receive (stagingTimestamp : Nat)
  | persist (elapsed : Bool)
  | complete
  | finish
  | serve
  | leave
  | disconnected

/-- The server has left its loop. -/
def ServerPhase.hasLeft : ServerPhase → Bool
  | .serving => false
  | .left _ => true

/-- The client has left its loop. -/
def WindowPhase.hasEnded : WindowPhase → Bool
  | .ended _ => true
  | _ => false

section Steps

variable (prims : Primitives) (outputDir : Option PathBuf) (share : ServedShare)
  (requestWindow : Nat)

/-- The message a successful turn of the client's inner loop sends. -/
def requestSent (share : ServedShare) (client : WindowedDownload) : List WireMessage :=
  match client.loop.next share.available with
  | some (some index, _) => [.requestChunk index]
  | _ => []

/-- The server answers the next message. -/
def serveNext (state : Exchange) : Option Exchange :=
  match state.server, state.toServer with
  | .serving, message :: rest =>
      if state.servedOrKnown.size < share.descriptor.chunks.length then
        match serveMessage share state.servedOrKnown message with
        | .ok (frames, servedOrKnown) =>
            some { state with
              toServer := rest, toClient := state.toClient ++ frames, servedOrKnown }
        | .error error => some { state with toServer := rest, server := .left (.error error) }
      else
        none
  | _, _ => none

/-- The server leaves because every chunk is served or known. -/
def leaveServing (state : Exchange) : Option Exchange :=
  match state.server with
  | .serving =>
      if state.servedOrKnown.size < share.descriptor.chunks.length then
        none
      else
        some { state with server := .left (.ok ()) }
  | .left _ => none

/-- The server finds the connection closed by a client that has ended. -/
def serverDisconnected (state : Exchange) : Option Exchange :=
  match state.server, state.toServer with
  | .serving, [] =>
      if state.servedOrKnown.size < share.descriptor.chunks.length ∧
          state.client.phase.hasEnded = true then
        some { state with server := .left (.ok ()) }
      else
        none
  | _, _ => none

/-- One step of the client, with nothing sent and nothing received. -/
def clientStep (state : Exchange) (event : WindowEvent) : Option Exchange :=
  ((downloadMissingChunksWindowed prims outputDir share.available requestWindow).step state.client
    event).map fun client => { state with client }

/-- Both sides as one machine. -/
def windowedExchange : Machine Exchange ExchangeEvent where
  step state
    | .request none =>
        (clientStep prims outputDir share requestWindow state (.request none)).map fun next =>
          { next with toServer := state.toServer ++ requestSent share state.client }
    | .request (some kind) =>
        if state.server.hasLeft then
          clientStep prims outputDir share requestWindow state (.request (some kind))
        else
          none
    | .receive stagingTimestamp =>
        match state.toClient with
        | frame :: rest =>
            (clientStep prims outputDir share requestWindow state
              (.receive (some frame) stagingTimestamp)).map fun next =>
                { next with toClient := rest }
        | [] =>
            if state.server.hasLeft then
              clientStep prims outputDir share requestWindow state
                (.receive none stagingTimestamp)
            else
              none
    | .persist elapsed => clientStep prims outputDir share requestWindow state (.persist elapsed)
    | .complete => clientStep prims outputDir share requestWindow state .complete
    | .finish => clientStep prims outputDir share requestWindow state .finish
    | .serve => serveNext share state
    | .leave => leaveServing share state
    | .disconnected => serverDisconnected share state

/-- The client's announcement of the chunks it already has, if any. -/
def announcement (completed : TreeSet UInt32) : List WireMessage :=
  if completed.isEmpty then [] else [.have completed.toList]

/-- Both sides when the client enters its loop. -/
def Exchange.initial (manifest : Manifest) (completed : TreeSet UInt32)
    (session : LibrarySession) (requestWindow : Nat) : Exchange where
  client := WindowedDownload.initial manifest completed ∅ session requestWindow
  toServer := announcement completed
  toClient := []
  servedOrKnown := ∅
  server := .serving

end Steps

end Etle
