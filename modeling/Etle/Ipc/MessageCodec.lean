import Etle.Ipc.Events
import Etle.Protocol.WireCodec

/-!
# The serialisation of local messages

Local connections carry commands, responses and events in the same form as wire messages: the number
of the variant and then its fields.  Addresses and paths have no form of their own.
-/

namespace Etle

open ByteCodec

namespace Ipc

def boolCodec : ByteCodec Bool :=
  byte.via (fun value => some (if value then 1 else 0))
    (fun image => if image = 0 then some false else if image = 1 then some true else none)
    (by rintro ⟨⟩ <;> simp)

/-- Sizes and counts are sent with eight bytes. -/
def usizeCodec : ByteCodec Nat := varint 8

/-- The family of an address, its octets and its port. -/
def socketAddrCodec : ByteCodec SocketAddr :=
  variants
    (fun | .v4 _ _ => 0 | .v6 _ _ => 1)
    (fun
      | 0 => some ((pair (ByteCodec.exact 4) uint16).via
          (fun | .v4 octets port => some (octets, port) | _ => none)
          (fun (octets, port) => some (.v4 octets port))
          (by rintro ⟨⟩ <;> simp +contextual [eq_comm]))
      | 1 => some ((pair (ByteCodec.exact 16) uint16).via
          (fun | .v6 octets port => some (octets, port) | _ => none)
          (fun (octets, port) => some (.v6 octets port))
          (by rintro ⟨⟩ <;> simp +contextual [eq_comm]))
      | _ => none)

def shareSummaryCodec : ByteCodec IpcShareSummary :=
  (pair shareIdCodec (pair text (pair usizeCodec (pair usizeCodec (pair boolCodec
    (option text)))))).via
    (fun share => some (share.shareId, share.name, share.completedChunks, share.totalChunks,
      share.hasSecret, share.mode))
    (fun (shareId, name, completedChunks, totalChunks, hasSecret, mode) =>
      some { shareId, name, completedChunks, totalChunks, hasSecret, mode })
    (by
      intro share image mapped
      obtain rfl := by simpa using mapped
      rfl)

def downloadRequestCodec : ByteCodec DownloadRequest :=
  (pair shareIdCodec (pair (list socketAddrCodec) (pair (option text) (pair usizeCodec
    (pair usizeCodec (pair uint16 (pair uint64 (pair (ByteCodec.exact 4) (option text))))))))).via
    (fun request => some (request.shareId, request.peers, request.output, request.parallelism,
      request.requestWindow, request.discoveryPort, request.discoveryTimeoutMs,
      request.discoveryMulticast, request.authPsk))
    (fun (shareId, peers, output, parallelism, requestWindow, discoveryPort, discoveryTimeoutMs,
        discoveryMulticast, authPsk) =>
      some {
        shareId
        peers
        output
        parallelism
        requestWindow
        discoveryPort
        discoveryTimeoutMs
        discoveryMulticast
        authPsk })
    (by
      intro request image mapped
      obtain rfl := by simpa using mapped
      rfl)

/-- The position of a command in the declaration. -/
def commandIndex : IpcCommand → Nat
  | .ping => 0
  | .listShares => 1
  | .seedFile _ _ => 2
  | .startServing _ => 3
  | .stopServing => 4
  | .deleteShare _ => 5
  | .download _ => 6
  | .downloadFresh _ => 7
  | .pause _ => 8
  | .resume _ => 9
  | .subscribeEvents => 10
  | .shutdown => 11

/-- What follows the number of a command. -/
def commandVariant : Nat → Option (ByteCodec IpcCommand)
  | 0 => some (ByteCodec.empty.via (fun | .ping => some () | _ => none) (fun _ => some .ping)
      (by rintro ⟨⟩ <;> simp))
  | 1 => some (ByteCodec.empty.via (fun | .listShares => some () | _ => none)
      (fun _ => some .listShares) (by rintro ⟨⟩ <;> simp))
  | 2 => some ((pair text usizeCodec).via
      (fun | .seedFile input chunkSize => some (input, chunkSize) | _ => none)
      (fun (input, chunkSize) => some (.seedFile input chunkSize))
      (by rintro ⟨⟩ <;> simp +contextual [eq_comm]))
  | 3 => some (socketAddrCodec.via (fun | .startServing listen => some listen | _ => none)
      (fun listen => some (.startServing listen)) (by rintro ⟨⟩ <;> simp))
  | 4 => some (ByteCodec.empty.via (fun | .stopServing => some () | _ => none)
      (fun _ => some .stopServing) (by rintro ⟨⟩ <;> simp))
  | 5 => some (shareIdCodec.via (fun | .deleteShare shareId => some shareId | _ => none)
      (fun shareId => some (.deleteShare shareId)) (by rintro ⟨⟩ <;> simp))
  | 6 => some (downloadRequestCodec.via (fun | .download request => some request | _ => none)
      (fun request => some (.download request)) (by rintro ⟨⟩ <;> simp))
  | 7 => some (downloadRequestCodec.via (fun | .downloadFresh request => some request | _ => none)
      (fun request => some (.downloadFresh request)) (by rintro ⟨⟩ <;> simp))
  | 8 => some (shareIdCodec.via (fun | .pause shareId => some shareId | _ => none)
      (fun shareId => some (.pause shareId)) (by rintro ⟨⟩ <;> simp))
  | 9 => some (shareIdCodec.via (fun | .resume shareId => some shareId | _ => none)
      (fun shareId => some (.resume shareId)) (by rintro ⟨⟩ <;> simp))
  | 10 => some (ByteCodec.empty.via (fun | .subscribeEvents => some () | _ => none)
      (fun _ => some .subscribeEvents) (by rintro ⟨⟩ <;> simp))
  | 11 => some (ByteCodec.empty.via (fun | .shutdown => some () | _ => none)
      (fun _ => some .shutdown) (by rintro ⟨⟩ <;> simp))
  | _ => none

def ipcCommandBincode : Bincode IpcCommand := .ofCodec (variants commandIndex commandVariant)

/-- The position of a response in the declaration. -/
def responseIndex : IpcResponse → Nat
  | .pong => 0
  | .ack _ => 1
  | .shares _ => 2
  | .shareAdded _ => 3
  | .shareDeleted _ _ => 4
  | .transferQueued _ _ => 5
  | .transferCompleted _ _ _ _ _ => 6
  | .error _ => 7

/-- What follows the number of a response. -/
def responseVariant : Nat → Option (ByteCodec IpcResponse)
  | 0 => some (ByteCodec.empty.via (fun | .pong => some () | _ => none) (fun _ => some .pong)
      (by rintro ⟨⟩ <;> simp))
  | 1 => some (text.via (fun | .ack message => some message | _ => none)
      (fun message => some (.ack message)) (by rintro ⟨⟩ <;> simp))
  | 2 => some ((list shareSummaryCodec).via (fun | .shares shares => some shares | _ => none)
      (fun shares => some (.shares shares)) (by rintro ⟨⟩ <;> simp))
  | 3 => some (shareSummaryCodec.via (fun | .shareAdded share => some share | _ => none)
      (fun share => some (.shareAdded share)) (by rintro ⟨⟩ <;> simp))
  | 4 => some ((pair shareIdCodec text).via
      (fun | .shareDeleted shareId name => some (shareId, name) | _ => none)
      (fun (shareId, name) => some (.shareDeleted shareId name))
      (by rintro ⟨⟩ <;> simp +contextual [eq_comm]))
  | 5 => some ((pair shareIdCodec text).via
      (fun | .transferQueued shareId jobId => some (shareId, jobId) | _ => none)
      (fun (shareId, jobId) => some (.transferQueued shareId jobId))
      (by rintro ⟨⟩ <;> simp +contextual [eq_comm]))
  | 6 => some ((pair shareIdCodec (pair text (pair text (pair uint64 usizeCodec)))).via
      (fun | .transferCompleted shareId output fileName fileSize chunks =>
              some (shareId, output, fileName, fileSize, chunks)
           | _ => none)
      (fun (shareId, output, fileName, fileSize, chunks) =>
        some (.transferCompleted shareId output fileName fileSize chunks))
      (by rintro ⟨⟩ <;> simp +contextual [eq_comm]))
  | 7 => some (text.via (fun | .error message => some message | _ => none)
      (fun message => some (.error message)) (by rintro ⟨⟩ <;> simp))
  | _ => none

def ipcResponseBincode : Bincode IpcResponse := .ofCodec (variants responseIndex responseVariant)

/-- The position of an event in the declaration. -/
def eventIndex : IpcEvent → Nat
  | .serverStarted _ => 0
  | .serverStopped => 1
  | .shareUpdated _ => 2
  | .shareDeleted _ => 3
  | .peerConnected _ => 4
  | .chunkCompleted _ _ _ => 5
  | .taskProgress _ _ _ _ _ _ _ _ => 6
  | .transferProgress _ _ _ _ _ _ _ => 7
  | .transferCompleted _ _ _ => 8
  | .error _ => 9

/-- What follows the number of an event. -/
def eventVariant : Nat → Option (ByteCodec IpcEvent)
  | 0 => some (socketAddrCodec.via (fun | .serverStarted listen => some listen | _ => none)
      (fun listen => some (.serverStarted listen)) (by rintro ⟨⟩ <;> simp))
  | 1 => some (ByteCodec.empty.via (fun | .serverStopped => some () | _ => none)
      (fun _ => some .serverStopped) (by rintro ⟨⟩ <;> simp))
  | 2 => some (shareSummaryCodec.via (fun | .shareUpdated share => some share | _ => none)
      (fun share => some (.shareUpdated share)) (by rintro ⟨⟩ <;> simp))
  | 3 => some (shareIdCodec.via (fun | .shareDeleted shareId => some shareId | _ => none)
      (fun shareId => some (.shareDeleted shareId)) (by rintro ⟨⟩ <;> simp))
  | 4 => some (text.via (fun | .peerConnected peerId => some peerId | _ => none)
      (fun peerId => some (.peerConnected peerId)) (by rintro ⟨⟩ <;> simp))
  | 5 => some ((pair shareIdCodec (pair usizeCodec usizeCodec)).via
      (fun | .chunkCompleted shareId completed total => some (shareId, completed, total)
           | _ => none)
      (fun (shareId, completed, total) => some (.chunkCompleted shareId completed total))
      (by rintro ⟨⟩ <;> simp +contextual [eq_comm]))
  | 6 => some ((pair (option text) (pair text (pair text (pair usizeCodec (pair usizeCodec
        (pair uint64 (pair uint64 uint64))))))).via
      (fun | .taskProgress jobId task label completed total bytesDone totalBytes rate =>
              some (jobId, task, label, completed, total, bytesDone, totalBytes, rate)
           | _ => none)
      (fun (jobId, task, label, completed, total, bytesDone, totalBytes, rate) =>
        some (.taskProgress jobId task label completed total bytesDone totalBytes rate))
      (by rintro ⟨⟩ <;> simp +contextual [eq_comm]))
  | 7 => some ((pair (option text) (pair shareIdCodec (pair usizeCodec (pair usizeCodec (pair uint64
        (pair uint64 uint64)))))).via
      (fun | .transferProgress jobId shareId completed total bytesDone totalBytes rate =>
              some (jobId, shareId, completed, total, bytesDone, totalBytes, rate)
           | _ => none)
      (fun (jobId, shareId, completed, total, bytesDone, totalBytes, rate) =>
        some (.transferProgress jobId shareId completed total bytesDone totalBytes rate))
      (by rintro ⟨⟩ <;> simp +contextual [eq_comm]))
  | 8 => some ((pair (option text) (pair shareIdCodec text)).via
      (fun | .transferCompleted jobId shareId output => some (jobId, shareId, output)
           | _ => none)
      (fun (jobId, shareId, output) => some (.transferCompleted jobId shareId output))
      (by rintro ⟨⟩ <;> simp +contextual [eq_comm]))
  | 9 => some (text.via (fun | .error message => some message | _ => none)
      (fun message => some (.error message)) (by rintro ⟨⟩ <;> simp))
  | _ => none

def ipcEventBincode : Bincode IpcEvent := .ofCodec (variants eventIndex eventVariant)

theorem ipcCommandBincode_roundTrip : ipcCommandBincode.RoundTrip := Bincode.ofCodec_roundTrip _

theorem ipcResponseBincode_roundTrip : ipcResponseBincode.RoundTrip := Bincode.ofCodec_roundTrip _

theorem ipcEventBincode_roundTrip : ipcEventBincode.RoundTrip := Bincode.ofCodec_roundTrip _

end Ipc

end Etle
