import Etle.Ipc.LocalShares
import Etle.State.Codec

/-!
# Discovery messages and addresses

A downloader asks the local network for a share, and every daemon that can offer it answers with
where it listens and with an identifier of itself.  The identifier is a hash of what the daemon
knows locally: its name, its library, its listen address and its process.
-/

namespace Etle

open ByteCodec

/-! ## Addresses as text -/

/-- The address of an interface of a host. -/
abbrev Ipv4Addr := Vector UInt8 4

/-- The eight segments of an IPv6 address. -/
def ipv6Segments : List UInt8 → List Nat
  | high :: low :: rest => (256 * high.toNat + low.toNat) :: ipv6Segments rest
  | _ => []

/-- A number in lower-case hexadecimal. -/
def hexText (value : Nat) : String := String.ofList (Nat.toDigits 16 value)

/-- Segments joined by colons. -/
def segmentsText (segments : List Nat) : String := ":".intercalate (segments.map hexText)

/-- A run of zero segments. -/
structure ZeroSpan where
  start : Nat
  len : Nat

/-- The first longest run of zero segments, and the run that ends at the segments seen so far. -/
def zeroSpans (segments : List Nat) : ZeroSpan × ZeroSpan :=
  segments.zipIdx.foldl
    (fun (longest, current) (segment, position) =>
      if segment = 0 then
        let current : ZeroSpan :=
          if current.len = 0 then ⟨position, 1⟩ else ⟨current.start, current.len + 1⟩
        (if longest.len < current.len then current else longest, current)
      else
        (longest, ⟨0, 0⟩))
    (⟨0, 0⟩, ⟨0, 0⟩)

/-- `Ipv4Addr` as it is displayed. -/
def ipv4Text (octets : List UInt8) : String :=
  ".".intercalate (octets.map fun octet => toString octet.toNat)

/-- `Ipv6Addr` as it is displayed: the longest run of at least two zero segments is left out, and an
IPv4 address that is mapped into IPv6 shows as such. -/
def ipv6Text (octets : List UInt8) : String :=
  if octets.take 12 = List.replicate 10 0 ++ [255, 255] then
    "::ffff:" ++ ipv4Text (octets.drop 12)
  else
    let segments := ipv6Segments octets
    let zeroes := (zeroSpans segments).1
    if 1 < zeroes.len then
      segmentsText (segments.take zeroes.start) ++ "::" ++
        segmentsText (segments.drop (zeroes.start + zeroes.len))
    else
      segmentsText segments

namespace SocketAddr

/-- `SocketAddr` as it is displayed.  An IPv6 address may have a scope, which is not a part of its
octets. -/
def display (addr : SocketAddr) (scopeId : UInt32) : String :=
  match addr with
  | .v4 octets port => ipv4Text octets.toList ++ ":" ++ toString port.toNat
  | .v6 octets port =>
      let scope := if scopeId = 0 then "" else "%" ++ toString scopeId.toNat
      "[" ++ ipv6Text octets.toList ++ scope ++ "]:" ++ toString port.toNat

def port : SocketAddr → UInt16
  | .v4 _ port | .v6 _ port => port

/-- `addr.ip().is_unspecified()` -/
def isUnspecified : SocketAddr → Bool
  | .v4 octets _ => octets = Vector.replicate 4 0
  | .v6 octets _ => octets = Vector.replicate 16 0

/-- `addr.ip().is_loopback()` -/
def isLoopback : SocketAddr → Bool
  | .v4 octets _ => octets[0] = 127
  | .v6 octets _ => octets.toList = List.replicate 15 0 ++ [1]

/-- IPv4 before IPv6, then by octets, then by port. -/
def before : SocketAddr → SocketAddr → Bool
  | .v4 left leftPort, .v4 right rightPort =>
      left.toList < right.toList || (left == right && leftPort ≤ rightPort)
  | .v6 left leftPort, .v6 right rightPort =>
      left.toList < right.toList || (left == right && leftPort ≤ rightPort)
  | .v4 _ _, .v6 _ _ => true
  | .v6 _ _, .v4 _ _ => false

end SocketAddr

/-- `Ipv4Addr::is_multicast` -/
def isMulticast (addr : Ipv4Addr) : Bool := 224 ≤ addr[0].toNat && addr[0].toNat ≤ 239

example : SocketAddr.display (.v4 #v[192, 168, 1, 20] 7000) 0 = "192.168.1.20:7000" := by
  decide +kernel

example : SocketAddr.display (.v6 #v[0xfe, 0x80, 0, 0, 0, 0, 0, 0, 0, 0, 0, 1, 0, 0, 0, 0xab] 7000)
    3 = "[fe80::1:0:ab%3]:7000" := by
  decide +kernel

/-! ## Messages -/

/-- What discovery sends. -/
inductive DiscoveryMessage where
  | query (magic : String) (shareId : ShareId)
  | response (magic : String) (shareId : ShareId) (listenAddr : SocketAddr) (listenPort : UInt16)
      (peerId instanceId name : String)
  deriving DecidableEq

/-- The first field of every message. -/
def discoveryMagic : String := "etle-discovery-v1"

/-- The size of the receive buffers; what is longer is cut off. -/
def maxDiscoveryPacketSize : Nat := 4096

/-- Decode a message that takes up all the bytes. -/
def decodeMessage (bincode : Bincode DiscoveryMessage) (bytes : Bytes) :
    Except DecodeError DiscoveryMessage :=
  decodeExact bincode bytes "discovery message"

/-- Octets one after another, then the port. -/
def addrCodec (width : Nat) : ByteCodec (Vector UInt8 width × UInt16) := pair (exact width) uint16

def socketAddrCodec : ByteCodec SocketAddr :=
  variants
    (fun
      | .v4 _ _ => 0
      | .v6 _ _ => 1)
    fun
      | 0 => some ((addrCodec 4).via
          (fun
            | .v4 octets port => some (octets, port)
            | .v6 _ _ => none)
          (fun (octets, port) => some (.v4 octets port))
          (by
            intro addr image mapped
            cases addr with
            | v4 octets port =>
                obtain rfl := by simpa using mapped
                rfl
            | v6 octets port => cases mapped))
      | 1 => some ((addrCodec 16).via
          (fun
            | .v4 _ _ => none
            | .v6 octets port => some (octets, port))
          (fun (octets, port) => some (.v6 octets port))
          (by
            intro addr image mapped
            cases addr with
            | v4 octets port => cases mapped
            | v6 octets port =>
                obtain rfl := by simpa using mapped
                rfl))
      | _ => none

def discoveryMessageCodec : ByteCodec DiscoveryMessage :=
  variants
    (fun
      | .query _ _ => 0
      | .response _ _ _ _ _ _ _ => 1)
    fun
      | 0 => some ((pair text shareIdCodec).via
          (fun
            | .query magic shareId => some (magic, shareId)
            | .response _ _ _ _ _ _ _ => none)
          (fun (magic, shareId) => some (.query magic shareId))
          (by
            intro message image mapped
            cases message with
            | query magic shareId =>
                obtain rfl := by simpa using mapped
                rfl
            | response magic shareId listenAddr listenPort peerId instanceId name =>
                cases mapped))
      | 1 => some ((pair text (pair shareIdCodec (pair socketAddrCodec (pair uint16
            (pair text (pair text text)))))).via
          (fun
            | .query _ _ => none
            | .response magic shareId listenAddr listenPort peerId instanceId name =>
                some (magic, shareId, listenAddr, listenPort, peerId, instanceId, name))
          (fun (magic, shareId, listenAddr, listenPort, peerId, instanceId, name) =>
            some (.response magic shareId listenAddr listenPort peerId instanceId name))
          (by
            intro message image mapped
            cases message with
            | query magic shareId => cases mapped
            | response magic shareId listenAddr listenPort peerId instanceId name =>
                obtain rfl := by simpa using mapped
                rfl))
      | _ => none

/-- The serialisation of the messages. -/
def discoveryBincode : Bincode DiscoveryMessage := .ofCodec discoveryMessageCodec

theorem streams_uint16 : uint16.Streams := (streams_varint 2).via _ _ _

theorem streams_shareIdCodec : shareIdCodec.Streams := by
  unfold shareIdCodec newtypeCodec
  exact (streams_exact 32).via _ _ _

theorem streams_addrCodec (width : Nat) : (addrCodec width).Streams :=
  (streams_exact width).pair streams_uint16

theorem streams_socketAddrCodec : socketAddrCodec.Streams := by
  apply streams_variants
  intro number codec found
  match number, found with
  | 0, found =>
      obtain rfl := Option.some.inj found
      exact (streams_addrCodec 4).via _ _ _
  | 1, found =>
      obtain rfl := Option.some.inj found
      exact (streams_addrCodec 16).via _ _ _
  | _ + 2, found => cases found

theorem streams_discoveryMessageCodec : discoveryMessageCodec.Streams := by
  apply streams_variants
  intro number codec found
  match number, found with
  | 0, found =>
      obtain rfl := Option.some.inj found
      exact (streams_text.pair streams_shareIdCodec).via _ _ _
  | 1, found =>
      obtain rfl := Option.some.inj found
      exact (streams_text.pair (streams_shareIdCodec.pair (streams_socketAddrCodec.pair
        (streams_uint16.pair (streams_text.pair (streams_text.pair streams_text)))))).via _ _ _
  | _ + 2, found => cases found

end Etle
