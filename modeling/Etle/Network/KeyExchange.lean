import Etle.Crypto.KeyExchange
import Etle.Network.Connection

/-!
# Handshake and key exchange

Both ends say hello, compare capabilities and exchange ephemeral public keys.  With a pre-shared key
the client proves first that it holds the key, and the server answers with its own proof only after
it has checked the client's.
-/

namespace Etle

/-! ## Hello and capabilities -/

/-- Receive the peer's hello. -/
def receiveHello : OnStream String :=
  receiveExpected "Hello" fun
    | .hello remote => some remote
    | _ => none

/-- Say hello first and wait for the answer. -/
def clientHelloHandshake (peerId : String) : OnStream String := do
  send (.hello peerId)
  receiveHello

/-- Wait for a hello and answer it. -/
def serverHelloHandshake (peerId : String) : OnStream String := do
  let remote ← receiveHello
  send (.hello peerId)
  return remote

/-- The capabilities both ends must have. -/
def requiredCapabilities : List String := [capabilityRawChunkFrame, capabilityWindowedRequests]

/-- Send the capabilities of this end. -/
def sendLocalCapabilities : OnStream Unit :=
  send (.capabilities etleWireProtocolVersion requiredCapabilities)

/-- Receive the peer's version and capabilities. -/
def receiveCapabilities : OnStream (UInt16 × List String) :=
  receiveExpected "Capabilities" fun
    | .capabilities protocolVersion features => some (protocolVersion, features)
    | _ => none

/-- Check the version and the capabilities of the peer. -/
def receiveAndValidatePeerCapabilities : OnStream Unit := do
  let (protocolVersion, features) ← receiveCapabilities
  if protocolVersion ≠ etleWireProtocolVersion then
    throw (.unsupportedProtocolVersion protocolVersion etleWireProtocolVersion)
  else
    match requiredCapabilities.find? fun required => !features.contains required with
    | some missing => throw (.missingPeerCapability missing)
    | none => return

/-- The handshake of a client. -/
def clientProtocolHandshake (peerId : String) : OnStream String := do
  let remote ← clientHelloHandshake peerId
  sendLocalCapabilities
  receiveAndValidatePeerCapabilities
  return remote

/-- The handshake of a server. -/
def serverProtocolHandshake (peerId : String) : OnStream String := do
  let remote ← serverHelloHandshake peerId
  receiveAndValidatePeerCapabilities
  sendLocalCapabilities
  return remote

/-! ## Key exchange -/

/-- A session key and the two public keys it was derived from, the client's first. -/
structure SessionKeys where
  sessionKey : SymmetricKey
  clientPublicKey : PublicKeyBytes
  serverPublicKey : PublicKeyBytes
  deriving DecidableEq

/-- The session key of a shared secret and both public keys, with these keys. -/
def SessionKeys.derive (prims : Primitives) (sharedSecret : Bytes32)
    (clientPublicKey serverPublicKey : PublicKeyBytes) : SessionKeys where
  sessionKey := deriveSessionKeyWithTranscript prims sharedSecret clientPublicKey serverPublicKey
  clientPublicKey := clientPublicKey
  serverPublicKey := serverPublicKey

/-- The proof of one end of a session. -/
def SessionKeys.authTag (prims : Primitives) (psk : AuthPsk) (keys : SessionKeys)
    (role : AuthRole) : AuthTag :=
  deriveAuthTag prims psk keys.sessionKey keys.clientPublicKey keys.serverPublicKey role

/-- Receive the public key of the peer. -/
def receivePublicKey : OnStream PublicKeyBytes :=
  receiveExpected "KeyExchange" fun
    | .keyExchange publicKey => some publicKey
    | _ => none

/-- Receive the proof of the peer. -/
def receiveAuthProof : OnStream AuthTag :=
  receiveExpected "AuthProof" fun
    | .authProof tag => some tag
    | _ => none

/-- The proof must be the expected one. -/
def verifyAuthTag (expected actual : AuthTag) : Except NetworkError Unit :=
  if authTagsEqual expected actual then .ok () else .error .peerAuthenticationFailed

section

variable (prims : Primitives) (secret : Bytes32)

/-- The client's exchange of public keys. -/
def clientUnauthenticatedSessionKeyExchange : OnStream SessionKeys := do
  let clientPublicKey := prims.x25519Public secret
  send (.keyExchange clientPublicKey)
  let serverPublicKey ← receivePublicKey
  let sharedSecret ← EStateM.liftExcept .crypto (diffieHellman prims secret serverPublicKey)
  return .derive prims sharedSecret clientPublicKey serverPublicKey

/-- The server's exchange of public keys. -/
def serverUnauthenticatedSessionKeyExchange : OnStream SessionKeys := do
  let clientPublicKey ← receivePublicKey
  let serverPublicKey := prims.x25519Public secret
  send (.keyExchange serverPublicKey)
  let sharedSecret ← EStateM.liftExcept .crypto (diffieHellman prims secret clientPublicKey)
  return .derive prims sharedSecret clientPublicKey serverPublicKey

/-- The client's exchange with proofs: it proves first and then checks the server's proof. -/
def clientAuthenticatedSessionKeyExchange (psk : AuthPsk) : OnStream SymmetricKey := do
  let keys ← clientUnauthenticatedSessionKeyExchange prims secret
  send (.authProof (keys.authTag prims psk .client))
  let serverTag ← receiveAuthProof
  EStateM.liftExcept id (verifyAuthTag (keys.authTag prims psk .server) serverTag)
  return keys.sessionKey

/-- The server's exchange with proofs: it checks the client's proof and then proves. -/
def serverAuthenticatedSessionKeyExchange (psk : AuthPsk) : OnStream SymmetricKey := do
  let keys ← serverUnauthenticatedSessionKeyExchange prims secret
  let clientTag ← receiveAuthProof
  EStateM.liftExcept id (verifyAuthTag (keys.authTag prims psk .client) clientTag)
  send (.authProof (keys.authTag prims psk .server))
  return keys.sessionKey

/-- The client's exchange without proofs. -/
def clientSessionKeyExchange : OnStream SymmetricKey := do
  return (← clientUnauthenticatedSessionKeyExchange prims secret).sessionKey

/-- The server's exchange without proofs. -/
def serverSessionKeyExchange : OnStream SymmetricKey := do
  return (← serverUnauthenticatedSessionKeyExchange prims secret).sessionKey

/-- The client's exchange, with proofs exactly when there is a pre-shared key. -/
def clientTransferSessionKeyExchange : Option AuthPsk → OnStream SymmetricKey
  | some psk => clientAuthenticatedSessionKeyExchange prims secret psk
  | none => clientSessionKeyExchange prims secret

/-- The server's exchange, with proofs exactly when there is a pre-shared key. -/
def serverTransferSessionKeyExchange : Option AuthPsk → OnStream SymmetricKey
  | some psk => serverAuthenticatedSessionKeyExchange prims secret psk
  | none => serverSessionKeyExchange prims secret

end

/-! ## What each end needs -/

section Handshake

variable {before after : Connection}

theorem run_receiveHello_eq_ok {remote : String} :
    receiveHello.run before = .ok remote after ↔
      before.Passes [.encoded (.hello remote)] [] after :=
  run_receiveExpected_eq_ok (fun message _ => by cases message <;> simp) (by simp)

theorem run_receiveCapabilities_eq_ok {peer : UInt16 × List String} :
    receiveCapabilities.run before = .ok peer after ↔
      before.Passes [.encoded (.capabilities peer.1 peer.2)] [] after := by
  refine @run_receiveExpected_eq_ok (UInt16 × List String) _ _
    (fun peer => .capabilities peer.1 peer.2) (fun message value => ?_) (by simp) _ _ _
  cases message <;> cases value <;> simp

theorem run_receivePublicKey_eq_ok {publicKey : PublicKeyBytes} :
    receivePublicKey.run before = .ok publicKey after ↔
      before.Passes [.encoded (.keyExchange publicKey)] [] after :=
  run_receiveExpected_eq_ok (fun message _ => by cases message <;> simp) (by simp)

theorem run_receiveAuthProof_eq_ok {tag : AuthTag} :
    receiveAuthProof.run before = .ok tag after ↔
      before.Passes [.encoded (.authProof tag)] [] after :=
  run_receiveExpected_eq_ok (fun message _ => by cases message <;> simp) (by simp)

/-- The peer's capabilities are accepted when the version matches and nothing is missing. -/
theorem run_receiveAndValidatePeerCapabilities_eq_ok {value : Unit} :
    receiveAndValidatePeerCapabilities.run before = .ok value after ↔
      ∃ features, (∀ required ∈ requiredCapabilities, required ∈ features) ∧
        before.Passes [.encoded (.capabilities etleWireProtocolVersion features)] [] after := by
  simp only [receiveAndValidatePeerCapabilities, EStateM.run_bind_eq_ok,
    run_receiveCapabilities_eq_ok]
  constructor
  · rintro ⟨⟨version, features⟩, middle, passes, checked⟩
    split at checked
    · simp at checked
    · rename_i same
      obtain rfl := not_not.mp same
      split at checked
      · simp at checked
      · rename_i found
        obtain rfl : middle = after := by simpa using checked
        refine ⟨features, fun required member => ?_, passes⟩
        simpa using List.find?_eq_none.mp found required member
  · rintro ⟨features, complete, passes⟩
    refine ⟨(etleWireProtocolVersion, features), after, passes, ?_⟩
    have found : (requiredCapabilities.find? fun required => !features.contains required) =
        none := by
      rw [List.find?_eq_none]
      intro required member
      simpa using complete required member
    simp only [ne_eq, not_true_eq_false, if_false, found]
    rfl

theorem run_clientProtocolHandshake_eq_ok {peerId remote : String} :
    (clientProtocolHandshake peerId).run before = .ok remote after ↔
      ∃ features, (∀ required ∈ requiredCapabilities, required ∈ features) ∧
        before.Passes [.encoded (.hello remote),
            .encoded (.capabilities etleWireProtocolVersion features)]
          [.encoded (.hello peerId),
            .encoded (.capabilities etleWireProtocolVersion requiredCapabilities)] after := by
  simp only [clientProtocolHandshake, clientHelloHandshake, sendLocalCapabilities,
    EStateM.run_bind_eq_ok, run_send_eq_ok, run_receiveHello_eq_ok,
    run_receiveAndValidatePeerCapabilities_eq_ok, EStateM.run_pure, EStateM.Result.ok.injEq]
  constructor
  · rintro ⟨_, _, ⟨_, _, hello, answered⟩, _, _, sent, _, _, ⟨features, complete, received⟩,
      rfl, rfl⟩
    exact ⟨features, complete, ((hello.trans answered).trans sent).trans received⟩
  · rintro ⟨features, complete, passes⟩
    obtain ⟨_, hello, passes⟩ := Connection.Passes.cons_sent.mp passes
    obtain ⟨_, answered, passes⟩ := Connection.Passes.cons_received.mp passes
    obtain ⟨_, sent, received⟩ := Connection.Passes.cons_sent.mp passes
    exact ⟨_, _, ⟨(), _, hello, answered⟩, (), _, sent, (), _, ⟨features, complete, received⟩,
      rfl, rfl⟩

theorem run_serverProtocolHandshake_eq_ok {peerId remote : String} :
    (serverProtocolHandshake peerId).run before = .ok remote after ↔
      ∃ features, (∀ required ∈ requiredCapabilities, required ∈ features) ∧
        before.Passes [.encoded (.hello remote),
            .encoded (.capabilities etleWireProtocolVersion features)]
          [.encoded (.hello peerId),
            .encoded (.capabilities etleWireProtocolVersion requiredCapabilities)] after := by
  simp only [serverProtocolHandshake, serverHelloHandshake, sendLocalCapabilities,
    EStateM.run_bind_eq_ok, run_send_eq_ok, run_receiveHello_eq_ok,
    run_receiveAndValidatePeerCapabilities_eq_ok, EStateM.run_pure, EStateM.Result.ok.injEq]
  constructor
  · rintro ⟨_, _, ⟨_, _, greeted, _, _, answered, rfl, rfl⟩, _, _, ⟨features, complete, received⟩,
      _, _, sent, rfl, rfl⟩
    exact ⟨features, complete, ((greeted.trans answered).trans received).trans sent⟩
  · rintro ⟨features, complete, passes⟩
    obtain ⟨_, greeted, passes⟩ := Connection.Passes.cons_received.mp passes
    obtain ⟨_, answered, passes⟩ := Connection.Passes.cons_sent.mp passes
    obtain ⟨_, received, sent⟩ := Connection.Passes.cons_received.mp passes
    exact ⟨_, _, ⟨_, _, greeted, (), _, answered, rfl, rfl⟩, (), _, ⟨features, complete, received⟩,
      (), _, sent, rfl, rfl⟩

end Handshake

section Exchange

variable {prims : Primitives} {secret : Bytes32} {before after : Connection}

theorem run_clientUnauthenticatedSessionKeyExchange_eq_ok {keys : SessionKeys} :
    (clientUnauthenticatedSessionKeyExchange prims secret).run before = .ok keys after ↔
      (∃ sharedSecret, diffieHellman prims secret keys.serverPublicKey = .ok sharedSecret ∧
        keys = .derive prims sharedSecret (prims.x25519Public secret) keys.serverPublicKey) ∧
      before.Passes [.encoded (.keyExchange keys.serverPublicKey)]
        [.encoded (.keyExchange keys.clientPublicKey)] after := by
  simp only [clientUnauthenticatedSessionKeyExchange, EStateM.run_bind_eq_ok, run_send_eq_ok,
    run_receivePublicKey_eq_ok, EStateM.run_liftExcept_eq_ok, EStateM.run_pure,
    EStateM.Result.ok.injEq]
  constructor
  · rintro ⟨_, _, sent, serverPublicKey, _, received, sharedSecret, _, ⟨agreed, rfl⟩, rfl, rfl⟩
    exact ⟨⟨sharedSecret, agreed, rfl⟩, sent.trans received⟩
  · rintro ⟨⟨sharedSecret, agreed, derived⟩, passes⟩
    have own : keys.clientPublicKey = prims.x25519Public secret :=
      congrArg SessionKeys.clientPublicKey derived
    obtain ⟨_, sent, received⟩ := Connection.Passes.cons_sent.mp passes
    rw [own] at sent
    exact ⟨(), _, sent, keys.serverPublicKey, _, received, sharedSecret, _, ⟨agreed, rfl⟩,
      derived.symm, rfl⟩

theorem run_serverUnauthenticatedSessionKeyExchange_eq_ok {keys : SessionKeys} :
    (serverUnauthenticatedSessionKeyExchange prims secret).run before = .ok keys after ↔
      (∃ sharedSecret, diffieHellman prims secret keys.clientPublicKey = .ok sharedSecret ∧
        keys = .derive prims sharedSecret keys.clientPublicKey (prims.x25519Public secret)) ∧
      before.Passes [.encoded (.keyExchange keys.clientPublicKey)]
        [.encoded (.keyExchange keys.serverPublicKey)] after := by
  simp only [serverUnauthenticatedSessionKeyExchange, EStateM.run_bind_eq_ok, run_send_eq_ok,
    run_receivePublicKey_eq_ok, EStateM.run_liftExcept_eq_ok, EStateM.run_pure,
    EStateM.Result.ok.injEq]
  constructor
  · rintro ⟨clientPublicKey, _, received, _, _, sent, sharedSecret, _, ⟨agreed, rfl⟩, rfl, rfl⟩
    exact ⟨⟨sharedSecret, agreed, rfl⟩, received.trans sent⟩
  · rintro ⟨⟨sharedSecret, agreed, derived⟩, passes⟩
    have own : keys.serverPublicKey = prims.x25519Public secret :=
      congrArg SessionKeys.serverPublicKey derived
    obtain ⟨_, received, sent⟩ := Connection.Passes.cons_received.mp passes
    rw [own] at sent
    exact ⟨keys.clientPublicKey, _, received, (), _, sent, sharedSecret, _, ⟨agreed, rfl⟩,
      derived.symm, rfl⟩

/-- The proof that goes with a session when there is a pre-shared key. -/
def SessionKeys.proofs (prims : Primitives) (psk : Option AuthPsk) (keys : SessionKeys)
    (role : AuthRole) : List Frame :=
  psk.toList.map fun psk => .encoded (.authProof (keys.authTag prims psk role))

theorem verifyAuthTag_eq_ok {expected actual : AuthTag} {value : Unit} :
    verifyAuthTag expected actual = .ok value ↔ actual = expected := by
  unfold verifyAuthTag
  split <;> rename_i equal <;> rw [authTagsEqual_iff] at equal
  · simp [equal]
  · simpa [eq_comm] using equal

/-- The client's key exchange completes with a usable public key and, if there is a pre-shared key,
with the server's proof. -/
theorem run_clientTransferSessionKeyExchange_eq_ok {psk : Option AuthPsk}
    {sessionKey : SymmetricKey} :
    (clientTransferSessionKeyExchange prims secret psk).run before = .ok sessionKey after ↔
      ∃ keys : SessionKeys, sessionKey = keys.sessionKey ∧
        (∃ sharedSecret, diffieHellman prims secret keys.serverPublicKey = .ok sharedSecret ∧
          keys = .derive prims sharedSecret (prims.x25519Public secret) keys.serverPublicKey) ∧
        before.Passes
          (.encoded (.keyExchange keys.serverPublicKey) :: keys.proofs prims psk .server)
          (.encoded (.keyExchange keys.clientPublicKey) :: keys.proofs prims psk .client)
          after := by
  cases psk with
  | none =>
      simp only [clientTransferSessionKeyExchange, clientSessionKeyExchange,
        EStateM.run_bind_eq_ok, run_clientUnauthenticatedSessionKeyExchange_eq_ok,
        EStateM.run_pure, EStateM.Result.ok.injEq]
      constructor
      · rintro ⟨keys, _, ⟨derived, passes⟩, rfl, rfl⟩
        exact ⟨keys, rfl, derived, passes⟩
      · rintro ⟨keys, rfl, derived, passes⟩
        exact ⟨keys, _, ⟨derived, passes⟩, rfl, rfl⟩
  | some psk =>
      simp only [clientTransferSessionKeyExchange, clientAuthenticatedSessionKeyExchange,
        EStateM.run_bind_eq_ok, run_clientUnauthenticatedSessionKeyExchange_eq_ok, run_send_eq_ok,
        run_receiveAuthProof_eq_ok, EStateM.run_liftExcept_eq_ok, verifyAuthTag_eq_ok,
        EStateM.run_pure, EStateM.Result.ok.injEq]
      constructor
      · rintro ⟨keys, _, ⟨derived, passes⟩, _, _, sent, _, _, received, _, _, ⟨rfl, rfl⟩, rfl, rfl⟩
        exact ⟨keys, rfl, derived, (passes.trans sent).trans received⟩
      · rintro ⟨keys, rfl, derived, passes⟩
        obtain ⟨_, offered, passes⟩ := Connection.Passes.cons_sent.mp passes
        obtain ⟨_, answered, passes⟩ := Connection.Passes.cons_received.mp passes
        obtain ⟨_, sent, received⟩ := Connection.Passes.cons_sent.mp passes
        exact ⟨keys, _, ⟨derived, offered.trans answered⟩, (), _, sent, _, _, received, (), _,
          ⟨rfl, rfl⟩, rfl, rfl⟩

/-- The server's key exchange completes with a usable public key and, if there is a pre-shared key,
with the client's proof. -/
theorem run_serverTransferSessionKeyExchange_eq_ok {psk : Option AuthPsk}
    {sessionKey : SymmetricKey} :
    (serverTransferSessionKeyExchange prims secret psk).run before = .ok sessionKey after ↔
      ∃ keys : SessionKeys, sessionKey = keys.sessionKey ∧
        (∃ sharedSecret, diffieHellman prims secret keys.clientPublicKey = .ok sharedSecret ∧
          keys = .derive prims sharedSecret keys.clientPublicKey (prims.x25519Public secret)) ∧
        before.Passes
          (.encoded (.keyExchange keys.clientPublicKey) :: keys.proofs prims psk .client)
          (.encoded (.keyExchange keys.serverPublicKey) :: keys.proofs prims psk .server)
          after := by
  cases psk with
  | none =>
      simp only [serverTransferSessionKeyExchange, serverSessionKeyExchange,
        EStateM.run_bind_eq_ok, run_serverUnauthenticatedSessionKeyExchange_eq_ok,
        EStateM.run_pure, EStateM.Result.ok.injEq]
      constructor
      · rintro ⟨keys, _, ⟨derived, passes⟩, rfl, rfl⟩
        exact ⟨keys, rfl, derived, passes⟩
      · rintro ⟨keys, rfl, derived, passes⟩
        exact ⟨keys, _, ⟨derived, passes⟩, rfl, rfl⟩
  | some psk =>
      simp only [serverTransferSessionKeyExchange, serverAuthenticatedSessionKeyExchange,
        EStateM.run_bind_eq_ok, run_serverUnauthenticatedSessionKeyExchange_eq_ok, run_send_eq_ok,
        run_receiveAuthProof_eq_ok, EStateM.run_liftExcept_eq_ok, verifyAuthTag_eq_ok,
        EStateM.run_pure, EStateM.Result.ok.injEq]
      constructor
      · rintro ⟨keys, _, ⟨derived, passes⟩, _, _, received, _, _, ⟨rfl, rfl⟩, _, _, sent, rfl, rfl⟩
        exact ⟨keys, rfl, derived, (passes.trans received).trans sent⟩
      · rintro ⟨keys, rfl, derived, passes⟩
        obtain ⟨_, offered, passes⟩ := Connection.Passes.cons_received.mp passes
        obtain ⟨_, answered, passes⟩ := Connection.Passes.cons_sent.mp passes
        obtain ⟨_, received, sent⟩ := Connection.Passes.cons_received.mp passes
        exact ⟨keys, _, ⟨derived, offered.trans answered⟩, _, _, received, (), _, ⟨rfl, rfl⟩, (), _,
          sent, rfl, rfl⟩

end Exchange

/-! ## What each end sends -/

section Sends

variable {forbidden : Frame → Prop} {prims : Primitives} {secret : Bytes32}

theorem keeps_avoids_receiveAndValidatePeerCapabilities :
    EStateM.Keeps (Connection.Avoids forbidden) receiveAndValidatePeerCapabilities := by
  refine keeps_avoids_receiveExpected.bind fun peer => ?_
  obtain ⟨protocolVersion, features⟩ := peer
  dsimp only
  split
  · exact .throw _
  · split
    · exact .throw _
    · exact .pure _

theorem keeps_avoids_serverProtocolHandshake {peerId : String}
    (hello : ¬forbidden (.encoded (.hello peerId)))
    (capabilities : ¬forbidden (.encoded (.capabilities etleWireProtocolVersion
      requiredCapabilities))) :
    EStateM.Keeps (Connection.Avoids forbidden) (serverProtocolHandshake peerId) :=
  (keeps_avoids_receiveExpected.bind fun _ =>
    (keeps_avoids_send hello).bind fun _ => .pure _).bind fun _ =>
  keeps_avoids_receiveAndValidatePeerCapabilities.bind fun _ =>
  (keeps_avoids_send capabilities).bind fun _ => .pure _

theorem keeps_avoids_clientProtocolHandshake {peerId : String}
    (hello : ¬forbidden (.encoded (.hello peerId)))
    (capabilities : ¬forbidden (.encoded (.capabilities etleWireProtocolVersion
      requiredCapabilities))) :
    EStateM.Keeps (Connection.Avoids forbidden) (clientProtocolHandshake peerId) :=
  ((keeps_avoids_send hello).bind fun _ => keeps_avoids_receiveExpected).bind fun _ =>
  (keeps_avoids_send capabilities).bind fun _ =>
  keeps_avoids_receiveAndValidatePeerCapabilities.bind fun _ => .pure _

theorem keeps_avoids_serverUnauthenticatedSessionKeyExchange
    (exchange : ¬forbidden (.encoded (.keyExchange (prims.x25519Public secret)))) :
    EStateM.Keeps (Connection.Avoids forbidden)
      (serverUnauthenticatedSessionKeyExchange prims secret) :=
  keeps_avoids_receiveExpected.bind fun _ =>
  (keeps_avoids_send exchange).bind fun _ => (EStateM.Keeps.liftExcept _ _).bind fun _ => .pure _

theorem keeps_avoids_serverTransferSessionKeyExchange {psk : Option AuthPsk}
    (exchange : ¬forbidden (.encoded (.keyExchange (prims.x25519Public secret))))
    (proof : ∀ tag, ¬forbidden (.encoded (.authProof tag))) :
    EStateM.Keeps (Connection.Avoids forbidden)
      (serverTransferSessionKeyExchange prims secret psk) := by
  cases psk with
  | none =>
      exact (keeps_avoids_serverUnauthenticatedSessionKeyExchange exchange).bind fun _ => .pure _
  | some psk =>
      exact (keeps_avoids_serverUnauthenticatedSessionKeyExchange exchange).bind fun _ =>
        keeps_avoids_receiveExpected.bind fun _ => (EStateM.Keeps.liftExcept _ _).bind fun _ =>
        (keeps_avoids_send (proof _)).bind fun _ => .pure _

end Sends

end Etle
