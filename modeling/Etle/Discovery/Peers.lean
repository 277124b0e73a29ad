import Etle.Discovery.Wire
import Etle.Foundations.Preference

/-!
# Finding the seeders of a share

The client collects the answers until its deadline and keeps one address for each instance
identifier, a loopback one rather than another.  Daemons on different hosts are told apart by their
identifiers only.
-/

namespace Etle

variable (prims : Primitives) (bincode : Bincode DiscoveryMessage)

/-! ## The server -/

/-- A daemon that serves discovery, with the library it can see.  Its listen address has a scope
when it is an IPv6 address with one, and the root of its library is also known by its text. -/
structure DiscoveryDaemon where
  libraryRoot : PathBuf
  libraryRootText : String
  p2pListen : SocketAddr
  listenScope : UInt32
  peerId : String
  processId : Nat
  disk : Disk
  directory : Option (List DirEntry)

/-- The identifier by which a daemon is told from others. -/
def discoveryInstanceId (daemon : DiscoveryDaemon) : String :=
  let input := utf8 discoveryMagic ++ utf8 daemon.peerId ++ utf8 daemon.libraryRootText ++
    utf8 (daemon.p2pListen.display daemon.listenScope) ++ utf8 (toString daemon.processId)
  String.ofList ((prims.blake3 input).toList.flatMap fun byte =>
    [hexDigit (byte.toNat / 16), hexDigit (byte.toNat % 16)])

/-- The listen address as it is advertised; whoever asks does not matter. -/
def advertisedP2pAddr (p2pListen : SocketAddr) (_sourceIp : Ipv4Addr) : SocketAddr := p2pListen

/-- What a daemon sends back to the source of a packet, if anything. -/
def serveReply (daemon : DiscoveryDaemon) (packet : Bytes) (source : Ipv4Addr) : Option Bytes :=
  match decodeMessage bincode (packet.take maxDiscoveryPacketSize) with
  | .ok (.query magic shareId) =>
      if magic ≠ discoveryMagic then none else do
        let name ← localShareName prims daemon.disk daemon.libraryRoot daemon.directory shareId
        bincode.encodeToVec (.response discoveryMagic shareId
          (advertisedP2pAddr daemon.p2pListen source) daemon.p2pListen.port daemon.peerId
          (discoveryInstanceId prims daemon) name)
  | _ => none

/-! ## The client -/

/-- A packet that arrives at the socket of the client. -/
structure Datagram where
  source : Ipv4Addr
  payload : Bytes
  deriving DecidableEq

/-- What the client has collected. -/
structure CollectedPeers where
  peersByInstance : AList fun _ : String => SocketAddr
  peers : List SocketAddr

/-- Keep the first address of an instance, or a loopback one instead. -/
def insertPreferredPeer (peers : AList fun _ : String => SocketAddr) (instanceId : String)
    (candidate : SocketAddr) : AList fun _ : String => SocketAddr :=
  insertPreferred SocketAddr.isLoopback peers instanceId candidate

/-- The address a response leads to. -/
def peerAddr (source : Ipv4Addr) (listenAddr : SocketAddr) (listenPort : UInt16) : SocketAddr :=
  if listenAddr.isUnspecified then .v4 source listenPort else listenAddr

/-- One turn of the receive loop. -/
def receiveResponse (shareId : ShareId) (collected : CollectedPeers) (datagram : Datagram) :
    CollectedPeers :=
  match decodeMessage bincode (datagram.payload.take maxDiscoveryPacketSize) with
  | .ok (.response magic responseShareId listenAddr listenPort _ instanceId _) =>
      if magic ≠ discoveryMagic ∨ responseShareId ≠ shareId then collected else
      let addr := peerAddr datagram.source listenAddr listenPort
      if instanceId = "" then
        { collected with peers := addr :: collected.peers }
      else
        { collected with
          peersByInstance := insertPreferredPeer collected.peersByInstance instanceId addr }
  | _ => collected

/-- The packet that asks for a share. -/
def queryPacket (shareId : ShareId) : Option Bytes :=
  bincode.encodeToVec (.query discoveryMagic shareId)

/-- The peers that the packets of a query lead to, in order and without repetition.  These packets
are the ones that arrive before the deadline, and before receiving fails. -/
def peersWith (shareId : ShareId) (arrivals : List Datagram) : List SocketAddr :=
  let collected := arrivals.foldl (receiveResponse bincode shareId) ⟨∅, []⟩
  (collected.peers ++ tableValues collected.peersByInstance).dedup.mergeSort SocketAddr.before

/-! ## Answers to one query -/

section Answers

variable {ι : Type} (shareId : ShareId) (daemons : ι → DiscoveryDaemon)

/-- An answer of one of several daemons to a query that reached it from somewhere. -/
structure DiscoveryAnswer where
  daemon : ι
  source : Ipv4Addr
  payload : Bytes
  sent : ∃ packet client, queryPacket bincode shareId = some packet ∧
    serveReply prims bincode (daemons daemon) packet client = some payload

variable {prims bincode shareId daemons}

namespace DiscoveryAnswer

/-- The packet as it arrives. -/
def datagram (answer : DiscoveryAnswer prims bincode shareId daemons) : Datagram where
  source := answer.source
  payload := answer.payload

/-- The identifier in the answer. -/
def instanceId (answer : DiscoveryAnswer prims bincode shareId daemons) : String :=
  discoveryInstanceId prims (daemons answer.daemon)

/-- The address the answer leads to. -/
def candidate (answer : DiscoveryAnswer prims bincode shareId daemons) : SocketAddr :=
  peerAddr answer.source (daemons answer.daemon).p2pListen (daemons answer.daemon).p2pListen.port

/-- The answer is received whole. -/
def Fits (answer : DiscoveryAnswer prims bincode shareId daemons) : Prop :=
  answer.payload.length ≤ maxDiscoveryPacketSize

instance (answer : DiscoveryAnswer prims bincode shareId daemons) : Decidable answer.Fits :=
  inferInstanceAs (Decidable (_ ≤ _))

end DiscoveryAnswer

/-- An address reaches a daemon: its explicit listen address, or, when it listens on an unspecified
one, its port at the source of an answer. -/
def Reaches (answers : List (DiscoveryAnswer prims bincode shareId daemons)) (daemon : ι)
    (addr : SocketAddr) : Prop :=
  if (daemons daemon).p2pListen.isUnspecified then
    ∃ answer ∈ answers, answer.daemon = daemon ∧
      addr = .v4 answer.source (daemons daemon).p2pListen.port
  else
    addr = (daemons daemon).p2pListen ∧ (daemons daemon).listenScope = 0

/-- An address can be the one that is kept for an identifier: it is a candidate, and a loopback one
if any candidate is. -/
def CanWin (answers : List (DiscoveryAnswer prims bincode shareId daemons)) (instanceId : String)
    (addr : SocketAddr) : Prop :=
  (∃ answer ∈ answers, answer.Fits ∧ answer.instanceId = instanceId ∧ answer.candidate = addr) ∧
    (addr.isLoopback = true ∨ ∀ answer ∈ answers, answer.Fits → answer.instanceId = instanceId →
      answer.candidate.isLoopback = false)

/-! ## What is kept -/

theorem discoveryInstanceId_ne_empty (daemon : DiscoveryDaemon) :
    discoveryInstanceId prims daemon ≠ "" := by
  intro empty
  have length := congrArg (fun text => text.toList.length) empty
  simp [discoveryInstanceId, List.length_flatMap] at length

theorem decodeMessage_of_encoded (roundTrip : bincode.RoundTrip) {message : DiscoveryMessage}
    {payload : Bytes} (encoded : bincode.encodeToVec message = some payload)
    (fits : payload.length ≤ maxDiscoveryPacketSize) :
    decodeMessage bincode (payload.take maxDiscoveryPacketSize) = .ok message := by
  rw [List.take_of_length_le fits]
  exact decodeExact_eq_ok.mpr (roundTrip _ _ encoded)

/-- A message that is cut off is not understood. -/
theorem decodeMessage_of_cut (roundTrip : bincode.RoundTrip) (stable : bincode.Stable)
    {message other : DiscoveryMessage} {payload : Bytes}
    (encoded : bincode.encodeToVec message = some payload)
    (long : ¬payload.length ≤ maxDiscoveryPacketSize) :
    decodeMessage bincode (payload.take maxDiscoveryPacketSize) ≠ .ok other := by
  intro understood
  have decoded := decodeExact_eq_ok.mp understood
  rw [List.length_take_of_le (by omega)] at decoded
  exact stable.not_cut roundTrip encoded (by omega) decoded

/-- What an answer says. -/
theorem DiscoveryAnswer.encoded (roundTrip : bincode.RoundTrip) (stable : bincode.Stable)
    (answer : DiscoveryAnswer prims bincode shareId daemons) :
    ∃ name, bincode.encodeToVec (.response discoveryMagic shareId
      (daemons answer.daemon).p2pListen (daemons answer.daemon).p2pListen.port
      (daemons answer.daemon).peerId answer.instanceId name) = some answer.payload := by
  obtain ⟨packet, client, asked, replied⟩ := answer.sent
  unfold serveReply at replied
  by_cases fits : packet.length ≤ maxDiscoveryPacketSize
  · rw [decodeMessage_of_encoded roundTrip asked fits] at replied
    simp only [ne_eq, not_true_eq_false, if_false] at replied
    obtain ⟨name, _, encoded⟩ := Option.bind_eq_some_iff.mp replied
    exact ⟨name, encoded⟩
  · split at replied
    · rename_i magic other understood
      exact absurd understood (decodeMessage_of_cut roundTrip stable asked fits)
    · cases replied

/-- An answer that fits is entered under its identifier, any other one is dropped. -/
theorem receiveResponse_answer (roundTrip : bincode.RoundTrip) (stable : bincode.Stable)
    (answer : DiscoveryAnswer prims bincode shareId daemons) (collected : CollectedPeers) :
    receiveResponse bincode shareId collected answer.datagram =
      if answer.Fits then
        { collected with
          peersByInstance :=
            insertPreferredPeer collected.peersByInstance answer.instanceId answer.candidate }
      else
        collected := by
  obtain ⟨name, encoded⟩ := answer.encoded roundTrip stable
  unfold receiveResponse
  split
  · rename_i magic other listenAddr listenPort peerId instanceId told understood
    by_cases fits : answer.Fits
    · rw [DiscoveryAnswer.datagram, decodeMessage_of_encoded roundTrip encoded fits] at understood
      simp only [Except.ok.injEq, DiscoveryMessage.response.injEq] at understood
      obtain ⟨rfl, rfl, rfl, rfl, rfl, rfl, rfl⟩ := understood
      have named : answer.instanceId ≠ "" := discoveryInstanceId_ne_empty _
      simp [fits, named, DiscoveryAnswer.candidate, DiscoveryAnswer.datagram]
    · exact absurd understood (decodeMessage_of_cut roundTrip stable encoded fits)
  · rename_i other
    by_cases fits : answer.Fits
    · exact absurd (decodeMessage_of_encoded roundTrip encoded fits) (other _ _ _ _ _ _ _)
    · rw [if_neg fits]

/-- The candidates under an identifier, in the order of their arrival. -/
def candidatesOf (answers : List (DiscoveryAnswer prims bincode shareId daemons))
    (instanceId : String) : List SocketAddr :=
  valuesOf ((answers.filter (·.Fits)).map fun answer => (answer.instanceId, answer.candidate))
    instanceId

theorem mem_candidatesOf {answers : List (DiscoveryAnswer prims bincode shareId daemons)}
    {instanceId : String} {addr : SocketAddr} :
    addr ∈ candidatesOf answers instanceId ↔ ∃ answer ∈ answers,
      answer.Fits ∧ answer.instanceId = instanceId ∧ answer.candidate = addr := by
  simp only [candidatesOf, valuesOf, List.mem_map, List.mem_filter, decide_eq_true_eq]
  constructor
  · rintro ⟨_, ⟨⟨answer, ⟨member, fits⟩, rfl⟩, rfl⟩, rfl⟩
    exact ⟨answer, member, fits, rfl, rfl⟩
  · rintro ⟨answer, member, fits, rfl, rfl⟩
    exact ⟨_, ⟨⟨answer, ⟨member, fits⟩, rfl⟩, rfl⟩, rfl⟩

theorem candidatesOf_append (front back : List (DiscoveryAnswer prims bincode shareId daemons))
    (instanceId : String) :
    candidatesOf (front ++ back) instanceId =
      candidatesOf front instanceId ++ candidatesOf back instanceId := by
  simp [candidatesOf, valuesOf]

theorem foldl_receiveResponse (roundTrip : bincode.RoundTrip) (stable : bincode.Stable)
    (answers : List (DiscoveryAnswer prims bincode shareId daemons))
    (collected : CollectedPeers) :
    (answers.map DiscoveryAnswer.datagram).foldl (receiveResponse bincode shareId) collected =
      { collected with
        peersByInstance := ((answers.filter (·.Fits)).map fun answer =>
          (answer.instanceId, answer.candidate)).foldl
            (fun table arrival => insertPreferred SocketAddr.isLoopback table arrival.1 arrival.2)
            collected.peersByInstance } := by
  induction answers generalizing collected with
  | nil => rfl
  | cons answer answers ih =>
      rw [List.map_cons, List.foldl_cons, receiveResponse_answer roundTrip stable, ih]
      by_cases fits : answer.Fits
      · simp [fits, insertPreferredPeer]
      · simp [fits]

/-- The listed addresses are those that are kept under some identifier. -/
theorem mem_peersWith (roundTrip : bincode.RoundTrip) (stable : bincode.Stable)
    {answers : List (DiscoveryAnswer prims bincode shareId daemons)} {addr : SocketAddr} :
    addr ∈ peersWith bincode shareId (answers.map DiscoveryAnswer.datagram) ↔
      ∃ instanceId,
        preferredOf SocketAddr.isLoopback (candidatesOf answers instanceId) = some addr := by
  rw [peersWith, List.mem_mergeSort, List.mem_dedup, foldl_receiveResponse roundTrip stable]
  simp only [List.nil_append, mem_tableValues]
  change (∃ key, (tableOf SocketAddr.isLoopback _).lookup key = some addr) ↔ _
  simp only [lookup_tableOf]
  rfl

theorem candidatesOf_perm {left right : List (DiscoveryAnswer prims bincode shareId daemons)}
    (perm : left.Perm right) {instanceId : String} {addr : SocketAddr} :
    addr ∈ candidatesOf left instanceId ↔ addr ∈ candidatesOf right instanceId := by
  simp [mem_candidatesOf, perm.mem_iff]

theorem canWin_iff {answers : List (DiscoveryAnswer prims bincode shareId daemons)}
    {instanceId : String} {addr : SocketAddr} :
    CanWin answers instanceId addr ↔ addr ∈ candidatesOf answers instanceId ∧
      (addr.isLoopback = true ∨
        ∀ other ∈ candidatesOf answers instanceId, other.isLoopback = false) := by
  unfold CanWin
  rw [mem_candidatesOf]
  apply and_congr_right
  intro _
  apply or_congr_right
  constructor
  · intro ordinary other member
    obtain ⟨answer, inside, fits, named, rfl⟩ := mem_candidatesOf.mp member
    exact ordinary answer inside fits named
  · intro ordinary answer inside fits named
    exact ordinary _ (mem_candidatesOf.mpr ⟨answer, inside, fits, named, rfl⟩)

/-- What is kept in some order of arrival could win. -/
theorem canWin_of_kept {answers arrivals : List (DiscoveryAnswer prims bincode shareId daemons)}
    (perm : arrivals.Perm answers) {instanceId : String} {kept : SocketAddr}
    (found : preferredOf SocketAddr.isLoopback (candidatesOf arrivals instanceId) = some kept) :
    CanWin answers instanceId kept := by
  rw [canWin_iff]
  refine ⟨(candidatesOf_perm perm).mp (mem_of_preferredOf found), ?_⟩
  by_cases loopback : kept.isLoopback = true
  · exact .inl loopback
  · refine .inr fun other member => ?_
    by_contra preferred
    exact loopback (isPreferred_of_preferredOf found ((candidatesOf_perm perm).mpr member)
      (by simpa using preferred))

/-- Every order of arrival finds an address of every daemon exactly when for every daemon there is
an identifier, in an answer that is received whole, under which only addresses that reach this
daemon can win. -/
theorem discovery_finds_every_daemon_iff (roundTrip : bincode.RoundTrip) (stable : bincode.Stable)
    (answers : List (DiscoveryAnswer prims bincode shareId daemons)) :
    (∀ arrivals : List (DiscoveryAnswer prims bincode shareId daemons), arrivals.Perm answers →
      ∀ answer ∈ answers,
        ∃ addr ∈ peersWith bincode shareId (arrivals.map DiscoveryAnswer.datagram),
          Reaches answers answer.daemon addr) ↔
    ∀ answer ∈ answers, ∃ heard ∈ answers, heard.Fits ∧
      ∀ addr, CanWin answers heard.instanceId addr → Reaches answers answer.daemon addr := by
  constructor
  · intro found answer member
    by_contra never
    push Not at never
    -- in this order, the answers that do not lead to the daemon come first
    classical
    let leads (other : DiscoveryAnswer prims bincode shareId daemons) : Bool :=
      Reaches answers answer.daemon other.candidate
    have perm : (answers.filter (fun other => !leads other) ++ answers.filter leads).Perm
        answers := by
      simpa using List.filter_append_perm (fun other => !leads other) answers
    obtain ⟨addr, listed, reaches⟩ := found _ perm answer member
    obtain ⟨instanceId, kept⟩ := (mem_peersWith roundTrip stable).mp listed
    obtain ⟨heard, inside, fits, named, _⟩ := mem_candidatesOf.mp (mem_of_preferredOf kept)
    obtain ⟨winner, wins, misses⟩ := never heard (perm.mem_iff.mp inside) fits
    rw [named, canWin_iff] at wins
    have first : winner ∈
        candidatesOf (answers.filter (fun other => !leads other)) instanceId := by
      obtain ⟨other, among, other_fits, other_named, rfl⟩ := mem_candidatesOf.mp wins.1
      exact mem_candidatesOf.mpr
        ⟨other, List.mem_filter.mpr ⟨among, by simpa [leads] using misses⟩, other_fits,
          other_named, rfl⟩
    have ordinary := wins.2.imp_right fun ordinary other among =>
      ordinary other ((candidatesOf_perm perm).mp among)
    rw [candidatesOf_append] at kept ordinary
    obtain ⟨other, among, _, _, rfl⟩ :=
      mem_candidatesOf.mp (preferredOf_append kept first ordinary)
    have misses_other := (List.mem_filter.mp among).2
    simp only [leads, Bool.not_eq_true', decide_eq_false_iff_not] at misses_other
    exact misses_other reaches
  · intro condition arrivals perm answer member
    obtain ⟨heard, inside, fits, reaching⟩ := condition answer member
    have some_candidate : candidatesOf arrivals heard.instanceId ≠ [] := by
      apply List.ne_nil_of_mem
      exact mem_candidatesOf.mpr ⟨heard, perm.mem_iff.mpr inside, fits, rfl, rfl⟩
    obtain ⟨kept, found⟩ : ∃ kept, preferredOf SocketAddr.isLoopback
        (candidatesOf arrivals heard.instanceId) = some kept := preferredOf_isSome some_candidate
    exact ⟨kept, (mem_peersWith roundTrip stable).mpr ⟨heard.instanceId, found⟩,
      reaching kept (canWin_of_kept perm found)⟩

/-- Daemons whose identifiers differ are all found, when their answers are received whole and no
explicit listen address has a scope. -/
theorem discovery_finds_distinct_daemons (roundTrip : bincode.RoundTrip) (stable : bincode.Stable)
    {answers : List (DiscoveryAnswer prims bincode shareId daemons)}
    (fits : ∀ answer ∈ answers, answer.Fits)
    (plain : ∀ answer ∈ answers, (daemons answer.daemon).listenScope = 0)
    (distinct : ∀ first ∈ answers, ∀ second ∈ answers,
      first.instanceId = second.instanceId → first.daemon = second.daemon)
    {arrivals : List (DiscoveryAnswer prims bincode shareId daemons)}
    (perm : arrivals.Perm answers) {answer : DiscoveryAnswer prims bincode shareId daemons}
    (member : answer ∈ answers) :
    ∃ addr ∈ peersWith bincode shareId (arrivals.map DiscoveryAnswer.datagram),
      Reaches answers answer.daemon addr := by
  refine (discovery_finds_every_daemon_iff roundTrip stable answers).mpr ?_ arrivals perm answer
    member
  intro answer member
  refine ⟨answer, member, fits answer member, fun addr wins => ?_⟩
  obtain ⟨⟨other, among, _, named, rfl⟩, _⟩ := wins
  have same := distinct other among answer member named
  unfold Reaches DiscoveryAnswer.candidate peerAddr
  rw [same]
  split
  · exact ⟨other, among, same, rfl⟩
  · exact ⟨rfl, plain answer member⟩

end Answers

/-- A daemon in a container: the same settings, the same paths and the same process number on every
host. -/
def containerDaemon : DiscoveryDaemon where
  libraryRoot := ["library"]
  libraryRootText := "library"
  p2pListen := .v4 #v[0, 0, 0, 0] 7000
  listenScope := 0
  peerId := "etle-daemon"
  processId := 1
  disk := damagedDisk
  directory := some [shareEntry soundDescriptor.shareId]

/-- What it sends to a client that looks for its share. -/
def containerReply : Bytes :=
  ((queryPacket discoveryBincode soundDescriptor.shareId).bind fun packet =>
    serveReply transparentPrimitives discoveryBincode containerDaemon packet
      #v[192, 168, 1, 5]).getD []

/-- The answer of such a daemon on one of several hosts. -/
def containerAnswer (host : Bool) : DiscoveryAnswer transparentPrimitives discoveryBincode
    soundDescriptor.shareId fun _ : Bool => containerDaemon where
  daemon := host
  source := if host then #v[192, 168, 1, 21] else #v[192, 168, 1, 20]
  payload := containerReply
  sent := ⟨(queryPacket discoveryBincode soundDescriptor.shareId).getD [], #v[192, 168, 1, 5],
    by decide +kernel, by decide +kernel⟩

/-- One such daemon is found at the source of its answer. -/
theorem discovery_finds_container :
    ∃ addr ∈ peersWith discoveryBincode soundDescriptor.shareId
        ([containerAnswer true].map DiscoveryAnswer.datagram),
      Reaches [containerAnswer true] true addr := by
  refine (discovery_finds_every_daemon_iff (Bincode.ofCodec_roundTrip _)
    (Bincode.ofCodec_stable streams_discoveryMessageCodec) [containerAnswer true]).mpr ?_
    [containerAnswer true] (List.Perm.refl _) (containerAnswer true) List.mem_cons_self
  intro answer member
  obtain rfl := List.mem_singleton.mp member
  have fits : (containerAnswer true).Fits := by
    simp only [DiscoveryAnswer.Fits, containerAnswer]
    decide +kernel
  refine ⟨containerAnswer true, member, fits, fun addr wins => ?_⟩
  obtain ⟨⟨other, among, _, _, rfl⟩, _⟩ := wins
  obtain rfl := List.mem_singleton.mp among
  exact ⟨containerAnswer true, member, rfl, rfl⟩

/-- Of two such daemons on different hosts only the one that answers first is found. -/
theorem discovery_loses_container :
    peersWith discoveryBincode soundDescriptor.shareId
        ([containerAnswer false, containerAnswer true].map DiscoveryAnswer.datagram) =
      [.v4 #v[192, 168, 1, 20] 7000] ∧
    (containerAnswer false).source ≠ (containerAnswer true).source ∧
    ¬Reaches [containerAnswer false, containerAnswer true] true (.v4 #v[192, 168, 1, 20] 7000) := by
  refine ⟨by decide +kernel, by decide, ?_⟩
  rintro ⟨answer, member, named, same⟩
  have hosts : answer = containerAnswer false ∨ answer = containerAnswer true := by
    simpa using member
  obtain rfl | rfl := hosts
  · cases named
  · exact absurd same (by decide)

end Etle
