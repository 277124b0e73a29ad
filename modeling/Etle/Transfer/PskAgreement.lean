import Etle.Crypto.Transparent
import Etle.Network.PskSessions
import Etle.Transfer.Download
import Etle.Transfer.Offering

/-!
# Agreement under a pre-shared key

The key exchanges, the negotiation of a download and the serving sessions are all sessions under a
pre-shared key.  Whatever an attacker delivers to any number of them, a client that accepts a key
has a server that accepted it before, a server that accepts a key has a client that derived it, and
a serving session tells nothing about a share to anyone else.
-/

namespace Etle

namespace PskSession

/-- A key exchange on its own. -/
def bare (role : AuthRole) (secret : Bytes32) (sendLimit : Option (Nat × ProtocolError)) :
    PskSession where
  role := role
  secret := secret
  ready := .ok ()
  peerId := none
  rest := fun _ => return
  sendLimit := sendLimit

/-- The negotiation of a download. -/
def downloading (prims : Primitives) (secret : Bytes32) (options : DownloadFileOptions)
    (sendLimit : Option (Nat × ProtocolError)) : PskSession where
  role := .client
  secret := secret
  ready := .ok ()
  peerId := some options.peerId
  rest := fun sessionKey => do
    sendRequestedShareIfNeeded options.requestedShareId
    let manifest ← receiveManifest
    let wrapped ← receiveWrappedFileKey
    let _ ← EStateM.liftExcept .crypto (unwrapFileKey prims sessionKey manifest.fileId wrapped)
    let _ ← receivePeerAvailability
    return
  sendLimit := sendLimit

/-- A session that serves a library, or one share of it. -/
def serving (prims : Primitives) (disk : Disk) (libraryRoot : PathBuf) (secret : Bytes32)
    (nonce : Nonce) (seederId : String) (share : Option ShareId)
    (sendLimit : Option (Nat × ProtocolError)) : PskSession where
  role := .server
  secret := secret
  ready :=
    match share with
    | none => .ok ()
    | some shareId => (loadShare prims disk { root := libraryRoot, shareId }).map fun _ => ()
  peerId := some seederId
  rest := fun sessionKey => do
    let shareId ← match share with
      | none => receiveRequestedShare
      | some shareId => pure shareId
    let loaded ← EStateM.liftExcept id (loadShare prims disk { root := libraryRoot, shareId })
    let _ ← offerShare prims disk nonce { root := libraryRoot, shareId } loaded sessionKey
    return
  sendLimit := sendLimit

variable {prims : Primitives} {psk : AuthPsk} {secret : Bytes32}
  {sendLimit : Option (Nat × ProtocolError)} {received : List Frame}

/-- A key exchange on its own begins at once. -/
theorem run_entry_bare (role : AuthRole) (before : Connection) :
    (bare role secret sendLimit).entry.run before = .ok () before :=
  run_entry_eq_ok.mpr ⟨rfl, [], [], ⟨rfl, rfl⟩, Connection.Passes.nil_iff.mpr rfl⟩

theorem returns_bare {role : AuthRole} {sessionKey : SymmetricKey} :
    (bare role secret sendLimit).Returns prims psk received sessionKey ↔
      ∃ after, ((bare role secret sendLimit).exchange prims psk).run
        { replies := received, sendLimit, sent := [] } = .ok sessionKey after := by
  simp only [Returns, run_entry_bare, EStateM.Result.ok.injEq, true_and]
  constructor
  · rintro ⟨greeted, after, rfl, exchanged⟩
    exact ⟨after, exchanged⟩
  · rintro ⟨after, exchanged⟩
    exact ⟨_, after, rfl, exchanged⟩

theorem sent_bare {role : AuthRole} :
    (bare role secret sendLimit).sent prims psk received =
      (((bare role secret sendLimit).exchange prims psk).run
        { replies := received, sendLimit, sent := [] }).final.sent := by
  have same : (bare role secret sendLimit).program prims psk =
      (do let _ ← (bare role secret sendLimit).exchange prims psk; return) := rfl
  rw [sent, same]
  exact congrArg Connection.sent (EStateM.final_bind_pure _ _ _)

theorem sent_downloading (options : DownloadFileOptions) (withPsk : options.authPsk = some psk) :
    (downloading prims secret options sendLimit).sent prims psk received =
      ((connectDownloadPeer prims secret options).run
        { replies := received, sendLimit, sent := [] }).final.sent := by
  have same : (downloading prims secret options sendLimit).program prims psk =
      (do let _ ← connectDownloadPeer prims secret options; return) := by
    simp only [program, entry, exchange, downloading, connectDownloadPeer,
      clientTransferSessionKeyExchange, withPsk, bind_assoc, pure_bind]
    rfl
  rw [sent, same]
  exact congrArg Connection.sent (EStateM.final_bind_pure _ _ _)

theorem sent_serving (disk : Disk) (libraryRoot : PathBuf) (nonce : Nonce) (seederId : String)
    (share : Option ShareId) :
    (serving prims disk libraryRoot secret nonce seederId share sendLimit).sent prims psk
        received =
      ((seederSession prims disk libraryRoot secret nonce seederId (some psk) share).run
        { replies := received, sendLimit, sent := [] }).final.sent := by
  have same : (serving prims disk libraryRoot secret nonce seederId share sendLimit).program prims
      psk = (do
        let _ ← seederSession prims disk libraryRoot secret nonce seederId (some psk) share
        return) := by
    cases share with
    | none =>
        simp only [program, entry, exchange, serving, seederSession, libraryConnectedPeer,
          serverTransferSessionKeyExchange, bind_assoc, pure_bind]
        rfl
    | some shareId =>
        simp only [program, entry, exchange, serving, seederSession, shareConnectedPeer,
          serverTransferSessionKeyExchange, bind_assoc, pure_bind]
        cases loadShare prims disk { root := libraryRoot, shareId } with
        | error error => rfl
        | ok loaded => rfl
  rw [sent, same]
  exact congrArg Connection.sent (EStateM.final_bind_pure _ _ _)

/-- A server that has sent what it keeps for after the key exchange has completed it. -/
theorem returns_of_sent {session : PskSession} {forbidden : Frame → Prop}
    (server : session.role = .server) (hello : ∀ peerId, ¬forbidden (.encoded (.hello peerId)))
    (capabilities : ∀ version features, ¬forbidden (.encoded (.capabilities version features)))
    (publicKey : ∀ publicKey, ¬forbidden (.encoded (.keyExchange publicKey)))
    (proof : ∀ tag, ¬forbidden (.encoded (.authProof tag))) {frame : Frame}
    (sent : frame ∈ session.sent prims psk received) (kept : forbidden frame) :
    ∃ sessionKey, session.Returns prims psk received sessionKey := by
  have fresh : (session.connection received).Avoids forbidden := fun _ member => by cases member
  have told : ¬((session.program prims psk).run (session.connection received)).final.Avoids
      forbidden := fun avoids => avoids _ sent kept
  obtain ⟨_, greeted, entered, greeted_fresh, same⟩ :=
    (keeps_avoids_entry hello (capabilities _ _)).escape fresh told
  have exchange_eq : session.exchange prims psk =
      serverTransferSessionKeyExchange prims session.secret (some psk) := by
    simp [exchange, server, serverTransferSessionKeyExchange]
  have exchanging : EStateM.Keeps (Connection.Avoids forbidden) (session.exchange prims psk) := by
    rw [exchange_eq]
    exact keeps_avoids_serverTransferSessionKeyExchange (publicKey _) proof
  have later : ¬((session.exchange prims psk >>= session.rest).run greeted).final.Avoids
      forbidden := by
    rw [← same]
    exact told
  obtain ⟨sessionKey, after, exchanged, -⟩ := exchanging.escape greeted_fresh later
  exact ⟨sessionKey, greeted, after, entered, exchanged⟩

end PskSession

/-! ## Agreement -/

section Agreement

variable {Party : Type} [DecidableEq Party]

/-- Whatever an attacker without the pre-shared key delivers, a client that returns a key agrees
with a server that has accepted its proof, a server that returns a key agrees with a client, and a
serving session that has told something about a share agrees with a client. -/
theorem pskSessions_agree (prims : Primitives) (psk : AuthPsk) (sessions : Party → PskSession)
    (events : List (Party × Frame)) (received : Party → List Frame)
    (unforged : attackedNetwork.Obeys (Unforgeable prims psk sessions) (fun _ => []) events)
    (run : attackedNetwork.run (fun _ => []) events = some received) (party : Party) :
    (∀ sessionKey, (sessions party).role = .client →
      (sessions party).Returns prims psk (received party) sessionKey →
      ∃ keys server seen, keys.sessionKey = sessionKey ∧
        AgreesWith prims sessions received party keys server seen ∧
        (sessions server).Returns prims psk seen sessionKey) ∧
    (∀ sessionKey, (sessions party).role = .server →
      (sessions party).Returns prims psk (received party) sessionKey →
      ∃ keys client seen, keys.sessionKey = sessionKey ∧
        AgreesWith prims sessions received party keys client seen) ∧
    (∀ disk libraryRoot secret nonce seederId share sendLimit,
      sessions party =
        .serving prims disk libraryRoot secret nonce seederId share sendLimit →
      ∀ frame ∈ ((seederSession prims disk libraryRoot secret nonce seederId (some psk) share).run
        { replies := received party, sendLimit, sent := [] }).final.sent, frame.IsShareData →
      ∃ keys client seen, (sessions party).Returns prims psk (received party) keys.sessionKey ∧
        AgreesWith prims sessions received party keys client seen) := by
  refine ⟨?_, ?_, ?_⟩
  · intro sessionKey client returns
    obtain ⟨keys, server, seen, rfl, agrees, proves⟩ := exists_prover unforged run returns
    have serves : (sessions server).role = .server := by
      rw [agrees.role, client]
      rfl
    exact ⟨keys, server, seen, rfl, agrees, proves.returns serves⟩
  · intro sessionKey _ returns
    obtain ⟨keys, client, seen, rfl, agrees, -⟩ := exists_prover unforged run returns
    exact ⟨keys, client, seen, rfl, agrees⟩
  · intro disk libraryRoot secret nonce seederId share sendLimit serving frame sent tells
    rw [← PskSession.sent_serving, ← serving] at sent
    obtain ⟨sessionKey, returns⟩ := PskSession.returns_of_sent (by rw [serving]; rfl)
      (by simp [Frame.IsShareData]) (by simp [Frame.IsShareData]) (by simp [Frame.IsShareData])
      (by simp [Frame.IsShareData]) sent tells
    obtain ⟨keys, client, seen, rfl, agrees, -⟩ := exists_prover unforged run returns
    exact ⟨keys, client, seen, returns, agrees⟩

end Agreement

/-! ## One client and one server -/

section Pair

/-- The client has the secret 1 in every byte, the server 2. -/
def pairSessions : Bool → PskSession
  | false => .bare .client (Vector.replicate 32 1) none
  | true => .bare .server (Vector.replicate 32 2) none

/-- The pre-shared key of the pair. -/
def pairPsk : AuthPsk := ⟨Vector.replicate 32 7⟩

/-- The keys that the pair agrees on. -/
def pairKeys : SessionKeys :=
  .derive transparentPrimitives (Vector.replicate 32 3) ⟨Vector.replicate 32 1⟩
    ⟨Vector.replicate 32 2⟩

/-- The public keys and the proofs of both, each delivered to the other. -/
def pairEvents : List (Bool × Frame) := [
  (true, .encoded (.keyExchange pairKeys.clientPublicKey)),
  (false, .encoded (.keyExchange pairKeys.serverPublicKey)),
  (true, .encoded (.authProof (pairKeys.authTag transparentPrimitives pairPsk .client))),
  (false, .encoded (.authProof (pairKeys.authTag transparentPrimitives pairPsk .server)))]

theorem derives_pair (party : Bool) :
    (pairSessions party).Derives transparentPrimitives pairKeys := by
  cases party with
  | false => exact ⟨Vector.replicate 32 3, by decide +kernel, rfl⟩
  | true => exact ⟨Vector.replicate 32 3, by decide +kernel, rfl⟩

theorem sendLimit_pair (party : Bool) : (pairSessions party).sendLimit = none := by
  cases party <;> rfl

theorem run_entry_pair (party : Bool) (before : Connection) :
    (pairSessions party).entry.run before = .ok () before := by
  cases party with
  | false => exact PskSession.run_entry_bare .client before
  | true => exact PskSession.run_entry_bare .server before

/-- Either session derives the keys once it has the public key of the other. -/
theorem computes_pair (party : Bool) (rest : List Frame) :
    (pairSessions party).Computes transparentPrimitives
      (.encoded (.keyExchange (pairKeys.publicKey (pairSessions party).role.peer)) :: rest)
      pairKeys := by
  refine ⟨_, ⟨rest, none, [.encoded (.keyExchange (pairKeys.publicKey (pairSessions party).role))]⟩,
    run_entry_pair party _, PskSession.run_exchangeKeys_eq_ok.mpr ⟨derives_pair party, ?_⟩⟩
  refine ⟨rfl, ?_, ?_, rfl⟩
  · simp [PskSession.connection, sendLimit_pair]
  · simp [PskSession.connection, sendLimit_pair, sendLimitAfter]

theorem returns_pair (party : Bool) :
    (pairSessions party).Returns transparentPrimitives pairPsk
      [.encoded (.keyExchange (pairKeys.publicKey (pairSessions party).role.peer)),
        .encoded (.authProof (pairKeys.authTag transparentPrimitives pairPsk
          (pairSessions party).role.peer))] pairKeys.sessionKey := by
  refine ⟨_, ⟨[], none, [.encoded (.keyExchange (pairKeys.publicKey (pairSessions party).role)),
    .encoded (.authProof (pairKeys.authTag transparentPrimitives pairPsk
      (pairSessions party).role))]⟩,
    run_entry_pair party _,
    PskSession.run_exchange_eq_ok.mpr ⟨pairKeys, rfl, derives_pair party, ?_⟩⟩
  refine ⟨rfl, ?_, ?_, rfl⟩
  · simp [PskSession.connection, sendLimit_pair]
  · simp [PskSession.connection, sendLimit_pair, sendLimitAfter]

/-- The client proves that it holds the keys once it has the server's public key. -/
theorem proves_client_pair :
    (pairSessions false).Proves transparentPrimitives pairPsk
      [.encoded (.keyExchange pairKeys.serverPublicKey)] pairKeys := by
  refine ⟨computes_pair false [], ?_⟩
  rw [pairSessions, PskSession.sent_bare]
  decide +kernel

theorem proves_server_pair :
    (pairSessions true).Proves transparentPrimitives pairPsk
      [.encoded (.keyExchange pairKeys.clientPublicKey),
        .encoded (.authProof (pairKeys.authTag transparentPrimitives pairPsk .client))]
      pairKeys := by
  refine ⟨computes_pair true _, ?_⟩
  rw [pairSessions, PskSession.sent_bare]
  decide +kernel

/-- A public key is no proof. -/
theorem unforgeable_publicKey (received : Bool → List Frame) (party : Bool)
    (publicKey : PublicKeyBytes) :
    Unforgeable transparentPrimitives pairPsk pairSessions received
      (party, .encoded (.keyExchange publicKey)) := by
  intro keys _ proof
  cases proof

/-- The attacker has delivered only what the pair has sent. -/
theorem obeys_pair :
    attackedNetwork.Obeys (Unforgeable transparentPrimitives pairPsk pairSessions) (fun _ => [])
      pairEvents := by
  refine Machine.obeys_cons (unforgeable_publicKey _ _ _) rfl ?_
  refine Machine.obeys_cons (unforgeable_publicKey _ _ _) rfl ?_
  refine Machine.obeys_cons ?_ rfl ?_
  · intro keys computes _
    obtain rfl := computes.unique (computes_pair true [])
    exact ⟨false, pairKeys, proves_client_pair, rfl⟩
  · refine Machine.obeys_cons ?_ rfl trivial
    intro keys computes _
    obtain rfl := computes.unique (computes_pair false [])
    exact ⟨true, pairKeys, proves_server_pair, rfl⟩

/-- The client of the pair returns the session key, and so has the server. -/
theorem pskSessions_agree_pair :
    ∃ received, attackedNetwork.run (fun _ => []) pairEvents = some received ∧
      (pairSessions false).Returns transparentPrimitives pairPsk (received false)
        pairKeys.sessionKey ∧
      ∃ keys server seen, keys.sessionKey = pairKeys.sessionKey ∧
        AgreesWith transparentPrimitives pairSessions received false keys server seen ∧
        (pairSessions server).Returns transparentPrimitives pairPsk seen pairKeys.sessionKey :=
  ⟨_, rfl, returns_pair false, (pskSessions_agree transparentPrimitives pairPsk pairSessions
    pairEvents _ obeys_pair rfl false).1 _ rfl (returns_pair false)⟩

end Pair

end Etle
