import Etle.Foundations.Machine
import Etle.Network.KeyExchange

/-!
# Sessions under one pre-shared key

Any number of sessions hold one pre-shared key and exchange keys at once, some as clients and some
as servers.  An attacker who does not hold the key decides what each of them receives: it drops,
repeats, reorders, reflects and invents frames.  Only a proof that the receiver accepts must have
been sent before by a session that computed it on the very same input, which is what it means that
the keyed hash cannot be forged.
-/

namespace Etle

/-! ## One session -/

/-- The other end of a session. -/
def AuthRole.peer : AuthRole → AuthRole
  | .client => .server
  | .server => .client

/-- The public key that one end has contributed. -/
def SessionKeys.publicKey (keys : SessionKeys) : AuthRole → PublicKeyBytes
  | .client => keys.clientPublicKey
  | .server => keys.serverPublicKey

/-- The input of the keyed hash of the proof of one end. -/
def SessionKeys.tagInput (keys : SessionKeys) (role : AuthRole) : Bytes :=
  authTagInput keys.sessionKey keys.clientPublicKey keys.serverPublicKey role

/-- A session that authenticates itself with the pre-shared key. -/
structure PskSession where
  role : AuthRole
  secret : Bytes32
  /-- What is checked before the first message. -/
  ready : Except NetworkError Unit
  /-- The name it gives in its handshake; a bare key exchange has no handshake. -/
  peerId : Option String
  /-- What follows the key exchange. -/
  rest : SymmetricKey → OnStream Unit
  sendLimit : Option (Nat × ProtocolError)

namespace PskSession

/-- What precedes the key exchange. -/
def entry (session : PskSession) : OnStream Unit := do
  EStateM.liftExcept id session.ready
  match session.peerId, session.role with
  | none, _ => return
  | some peerId, .client =>
      let _ ← clientProtocolHandshake peerId
      return
  | some peerId, .server =>
      let _ ← serverProtocolHandshake peerId
      return

/-- The exchange of public keys. -/
def exchangeKeys (prims : Primitives) (session : PskSession) : OnStream SessionKeys :=
  match session.role with
  | .client => clientUnauthenticatedSessionKeyExchange prims session.secret
  | .server => serverUnauthenticatedSessionKeyExchange prims session.secret

/-- The key exchange with proofs. -/
def exchange (prims : Primitives) (psk : AuthPsk) (session : PskSession) : OnStream SymmetricKey :=
  match session.role with
  | .client => clientAuthenticatedSessionKeyExchange prims session.secret psk
  | .server => serverAuthenticatedSessionKeyExchange prims session.secret psk

/-- The whole session. -/
def program (prims : Primitives) (psk : AuthPsk) (session : PskSession) : OnStream Unit := do
  session.entry
  let sessionKey ← session.exchange prims psk
  session.rest sessionKey

/-- Its end of the connection, when it receives the given frames. -/
def connection (session : PskSession) (received : List Frame) : Connection where
  replies := received
  sendLimit := session.sendLimit
  sent := []

/-- What the session has sent when it has received the given frames. -/
def sent (prims : Primitives) (psk : AuthPsk) (session : PskSession) (received : List Frame) :
    List Frame :=
  ((session.program prims psk).run (session.connection received)).final.sent

/-- The session has derived these keys. -/
def Computes (prims : Primitives) (session : PskSession) (received : List Frame)
    (keys : SessionKeys) : Prop :=
  ∃ greeted after, session.entry.run (session.connection received) = .ok () greeted ∧
    (session.exchangeKeys prims).run greeted = .ok keys after

/-- The key exchange of the session has returned this key. -/
def Returns (prims : Primitives) (psk : AuthPsk) (session : PskSession) (received : List Frame)
    (sessionKey : SymmetricKey) : Prop :=
  ∃ greeted after, session.entry.run (session.connection received) = .ok () greeted ∧
    (session.exchange prims psk).run greeted = .ok sessionKey after

/-- The session has derived these keys and has sent its proof for them. -/
structure Proves (prims : Primitives) (psk : AuthPsk) (session : PskSession)
    (received : List Frame) (keys : SessionKeys) : Prop where
  computes : session.Computes prims received keys
  sent : .encoded (.authProof (keys.authTag prims psk session.role)) ∈
    session.sent prims psk received

/-! ## What a session needs -/

/-- The frames of the handshake, those received first. -/
def Greets (session : PskSession) (received sent : List Frame) : Prop :=
  match session.peerId with
  | none => received = [] ∧ sent = []
  | some peerId => ∃ remote features,
      (∀ required ∈ requiredCapabilities, required ∈ features) ∧
      received = [.encoded (.hello remote),
        .encoded (.capabilities etleWireProtocolVersion features)] ∧
      sent = [.encoded (.hello peerId),
        .encoded (.capabilities etleWireProtocolVersion requiredCapabilities)]

/-- The keys are those of the session's secret and of the public key of some peer. -/
def Derives (prims : Primitives) (session : PskSession) (keys : SessionKeys) : Prop :=
  ∃ sharedSecret,
    diffieHellman prims session.secret (keys.publicKey session.role.peer) = .ok sharedSecret ∧
    keys = match session.role with
      | .client => .derive prims sharedSecret (prims.x25519Public session.secret)
          keys.serverPublicKey
      | .server => .derive prims sharedSecret keys.clientPublicKey
          (prims.x25519Public session.secret)

section

variable {prims : Primitives} {psk : AuthPsk} {session : PskSession} {before after : Connection}

/-- The check and the handshake of a session that has one. -/
theorem run_greeting_eq_ok {handshake : OnStream String} {peerId : String} {value : Unit}
    (named : session.peerId = some peerId)
    (spec : ∀ remote before after, handshake.run before = .ok remote after ↔
      ∃ features, (∀ required ∈ requiredCapabilities, required ∈ features) ∧
        before.Passes [.encoded (.hello remote),
            .encoded (.capabilities etleWireProtocolVersion features)]
          [.encoded (.hello peerId),
            .encoded (.capabilities etleWireProtocolVersion requiredCapabilities)] after) :
    (do EStateM.liftExcept id session.ready; let _ ← handshake; return : OnStream Unit).run before =
        .ok value after ↔ session.ready = .ok () ∧
      ∃ received sent, session.Greets received sent ∧ before.Passes received sent after := by
  simp only [EStateM.run_bind_eq_ok, EStateM.run_liftExcept_eq_ok, Greets, named, spec,
    EStateM.run_pure, EStateM.Result.ok.injEq]
  constructor
  · rintro ⟨_, _, ⟨checked, rfl⟩, remote, _, ⟨features, complete, passes⟩, -, rfl⟩
    exact ⟨checked, _, _, ⟨remote, features, complete, rfl, rfl⟩, passes⟩
  · rintro ⟨checked, _, _, ⟨remote, features, complete, rfl, rfl⟩, passes⟩
    exact ⟨(), before, ⟨checked, rfl⟩, remote, after, ⟨features, complete, passes⟩, trivial, rfl⟩

theorem run_entry_eq_ok {value : Unit} :
    session.entry.run before = .ok value after ↔ session.ready = .ok () ∧
      ∃ received sent, session.Greets received sent ∧ before.Passes received sent after := by
  obtain ⟨role, secret, ready, peerId, rest, sendLimit⟩ := session
  cases peerId with
  | none =>
      simp only [entry, EStateM.run_bind_eq_ok, EStateM.run_liftExcept_eq_ok, Greets,
        EStateM.run_pure, EStateM.Result.ok.injEq]
      constructor
      · rintro ⟨_, _, ⟨checked, rfl⟩, -, rfl⟩
        exact ⟨checked, [], [], ⟨rfl, rfl⟩, Connection.Passes.nil_iff.mpr rfl⟩
      · rintro ⟨checked, _, _, ⟨rfl, rfl⟩, passes⟩
        exact ⟨(), before, ⟨checked, rfl⟩, trivial, (Connection.Passes.nil_iff.mp passes).symm⟩
  | some peerId =>
      cases role with
      | client =>
          exact run_greeting_eq_ok rfl fun _ _ _ => run_clientProtocolHandshake_eq_ok
      | server =>
          exact run_greeting_eq_ok rfl fun _ _ _ => run_serverProtocolHandshake_eq_ok

theorem run_exchangeKeys_eq_ok {keys : SessionKeys} :
    (session.exchangeKeys prims).run before = .ok keys after ↔ session.Derives prims keys ∧
      before.Passes [.encoded (.keyExchange (keys.publicKey session.role.peer))]
        [.encoded (.keyExchange (keys.publicKey session.role))] after := by
  obtain ⟨role, secret, ready, peerId, rest, sendLimit⟩ := session
  cases role with
  | client => exact run_clientUnauthenticatedSessionKeyExchange_eq_ok
  | server => exact run_serverUnauthenticatedSessionKeyExchange_eq_ok

/-- The key exchange returns with the key of derived keys and the proof of the peer for them. -/
theorem run_exchange_eq_ok {sessionKey : SymmetricKey} :
    (session.exchange prims psk).run before = .ok sessionKey after ↔
      ∃ keys, sessionKey = keys.sessionKey ∧ session.Derives prims keys ∧
        before.Passes [.encoded (.keyExchange (keys.publicKey session.role.peer)),
            .encoded (.authProof (keys.authTag prims psk session.role.peer))]
          [.encoded (.keyExchange (keys.publicKey session.role)),
            .encoded (.authProof (keys.authTag prims psk session.role))] after := by
  obtain ⟨role, secret, ready, peerId, rest, sendLimit⟩ := session
  cases role with
  | client => exact @run_clientTransferSessionKeyExchange_eq_ok _ _ _ _ (some psk) _
  | server => exact @run_serverTransferSessionKeyExchange_eq_ok _ _ _ _ (some psk) _

variable {received : List Frame} {keys : SessionKeys}

theorem Computes.unique {other : SessionKeys} (first : session.Computes prims received keys)
    (second : session.Computes prims received other) : keys = other := by
  obtain ⟨greeted, after, entered, exchanged⟩ := first
  obtain ⟨otherGreeted, otherAfter, otherEntered, otherExchanged⟩ := second
  obtain rfl : greeted = otherGreeted := by simpa using entered.symm.trans otherEntered
  obtain ⟨rfl, -⟩ : keys = other ∧ after = otherAfter := by
    simpa using exchanged.symm.trans otherExchanged
  rfl

/-- A session whose key exchange returns has derived keys, and then received the proof of its peer
for them. -/
theorem Returns.split {sessionKey : SymmetricKey}
    (returns : session.Returns prims psk received sessionKey) :
    ∃ keys earlier later, keys.sessionKey = sessionKey ∧ session.Computes prims received keys ∧
      received = earlier ++
        .encoded (.authProof (keys.authTag prims psk session.role.peer)) :: later ∧
      session.Computes prims earlier keys := by
  obtain ⟨greeted, after, entered, exchanged⟩ := returns
  obtain ⟨checked, hello, answer, greets, greeting⟩ := run_entry_eq_ok.mp entered
  obtain ⟨keys, rfl, derives, passes⟩ := run_exchange_eq_ok.mp exchanged
  obtain ⟨middle, first, second⟩ := @Connection.Passes.split _ _ [_] [_] [_] [_] passes
  have whole : received = (hello ++ [.encoded (.keyExchange (keys.publicKey session.role.peer))]) ++
      .encoded (.authProof (keys.authTag prims psk session.role.peer)) :: after.replies := by
    rw [show received = _ from greeting.replies, passes.replies]
    simp
  refine ⟨keys, _, _, rfl, ⟨greeted, middle, entered, run_exchangeKeys_eq_ok.mpr ⟨derives, first⟩⟩,
    whole, ?_⟩
  refine ⟨{ greeted with replies := [.encoded (.keyExchange (keys.publicKey session.role.peer))] },
    { middle with replies := [] }, run_entry_eq_ok.mpr ⟨checked, hello, answer, greets,
      greeting.retarget _⟩, run_exchangeKeys_eq_ok.mpr ⟨derives, ?_⟩⟩
  exact first.retarget []

/-! ## What a server has checked when it proves -/

theorem keeps_avoids_entry {forbidden : Frame → Prop}
    (hello : ∀ peerId, ¬forbidden (.encoded (.hello peerId)))
    (capabilities : ¬forbidden (.encoded (.capabilities etleWireProtocolVersion
      requiredCapabilities))) :
    EStateM.Keeps (Connection.Avoids forbidden) session.entry := by
  refine (EStateM.Keeps.liftExcept _ _).bind fun _ => ?_
  split
  · exact .pure _
  · exact (keeps_avoids_clientProtocolHandshake (hello _) capabilities).bind fun _ => .pure _
  · exact (keeps_avoids_serverProtocolHandshake (hello _) capabilities).bind fun _ => .pure _

/-- A frame with a proof. -/
def IsProof (frame : Frame) : Prop := ∃ tag, frame = .encoded (.authProof tag)

/-- The key exchange of a server that fails has sent no proof. -/
theorem avoids_of_failed_exchange {secret : Bytes32} {error : NetworkError}
    (fresh : before.Avoids IsProof)
    (failed : (serverAuthenticatedSessionKeyExchange prims secret psk).run before =
      .error error after) : after.Avoids IsProof := by
  have exchanging : EStateM.Keeps (Connection.Avoids IsProof)
      (serverUnauthenticatedSessionKeyExchange prims secret) :=
    keeps_avoids_serverUnauthenticatedSessionKeyExchange (by simp [IsProof])
  have receiving : EStateM.Keeps (Connection.Avoids IsProof) receiveAuthProof :=
    keeps_avoids_receiveExpected
  simp only [serverAuthenticatedSessionKeyExchange, EStateM.run_bind_eq_error] at failed
  obtain stopped | ⟨keys, agreed, exchanged, later⟩ := failed
  · simpa [stopped] using exchanging before fresh
  have agreed_fresh : agreed.Avoids IsProof := by simpa [exchanged] using exchanging before fresh
  obtain stopped | ⟨tag, arrived, received, later⟩ := later
  · simpa [stopped] using receiving agreed agreed_fresh
  have arrived_fresh : arrived.Avoids IsProof := by
    simpa [received] using receiving agreed agreed_fresh
  obtain stopped | ⟨_, checked, verified, later⟩ := later
  · have kept := EStateM.Keeps.liftExcept id (verifyAuthTag (keys.authTag prims psk .client) tag)
      arrived arrived_fresh
    simpa [stopped] using kept
  obtain ⟨-, rfl⟩ := EStateM.run_liftExcept_eq_ok.mp verified
  obtain stopped | ⟨_, _, _, returned⟩ := later
  · rw [eq_of_run_send_eq_error stopped]
    exact arrived_fresh
  · simp at returned

/-- A server that has sent its proof has accepted the proof of the client, and its key exchange has
returned. -/
theorem Proves.returns (server : session.role = .server)
    (proves : session.Proves prims psk received keys) :
    session.Returns prims psk received keys.sessionKey := by
  have fresh : (session.connection received).Avoids IsProof := fun _ member => by cases member
  have told : ¬((session.program prims psk).run (session.connection received)).final.Avoids
      IsProof := fun avoids => avoids _ proves.sent ⟨_, rfl⟩
  have entering : EStateM.Keeps (Connection.Avoids IsProof) session.entry :=
    keeps_avoids_entry (by simp [IsProof]) (by simp [IsProof])
  obtain ⟨_, greeted, entered, greeted_fresh, -⟩ := entering.escape fresh told
  have exchange_eq : session.exchange prims psk =
      serverAuthenticatedSessionKeyExchange prims session.secret psk := by
    simp [exchange, server]
  cases exchanged : (session.exchange prims psk).run greeted with
  | error error left =>
      rw [exchange_eq] at exchanged
      refine absurd (avoids_of_failed_exchange greeted_fresh exchanged) ?_
      simpa [program, entered, exchange_eq, exchanged] using told
  | ok sessionKey after =>
      have returns : session.Returns prims psk received sessionKey :=
        ⟨greeted, after, entered, exchanged⟩
      obtain ⟨other, -, -, rfl, computes, -⟩ := returns.split
      rwa [proves.computes.unique computes]

end

end PskSession

/-! ## Many sessions and an attacker -/

section Attack

variable {Party : Type} [DecidableEq Party]

/-- The frames each session has received; the attacker delivers one frame after another. -/
def attackedNetwork : Machine (Party → List Frame) (Party × Frame) where
  step received delivery :=
    some (Function.update received delivery.1 (received delivery.1 ++ [delivery.2]))

/-- The keyed hash is not forged: a proof that the receiver accepts has been sent by some session,
which computed it on the same input. -/
def Unforgeable (prims : Primitives) (psk : AuthPsk) (sessions : Party → PskSession)
    (received : Party → List Frame) (delivery : Party × Frame) : Prop :=
  ∀ keys, (sessions delivery.1).Computes prims (received delivery.1) keys →
    delivery.2 =
      .encoded (.authProof (keys.authTag prims psk (sessions delivery.1).role.peer)) →
    ∃ prover proved, (sessions prover).Proves prims psk (received prover) proved ∧
      proved.tagInput (sessions prover).role = keys.tagInput (sessions delivery.1).role.peer

/-- Every frame that a session has received was delivered in some earlier state. -/
def Delivered (allowed : (Party → List Frame) → Party × Frame → Prop)
    (received : Party → List Frame) : Prop :=
  ∀ party earlier frame later, received party = earlier ++ frame :: later →
    ∃ before : Party → List Frame, before party = earlier ∧ allowed before (party, frame) ∧
      ∀ other, before other <+: received other

theorem delivered_of_step {allowed : (Party → List Frame) → Party × Frame → Prop}
    (received : Party → List Frame) (delivery : Party × Frame) (next : Party → List Frame)
    (delivered : Delivered allowed received) (permitted : allowed received delivery)
    (step : attackedNetwork.step received delivery = some next) : Delivered allowed next := by
  obtain ⟨target, arriving⟩ := delivery
  obtain rfl : Function.update received target (received target ++ [arriving]) = next := by
    simpa [attackedNetwork] using step
  have grows (other : Party) :
      received other <+: Function.update received target (received target ++ [arriving]) other := by
    by_cases same : other = target
    · subst same
      simp
    · simp [same]
  intro party earlier frame later split
  by_cases same : party = target
  · subst same
    rw [Function.update_self] at split
    obtain rfl | ⟨rest, last, rfl⟩ := List.eq_nil_or_concat' later
    · obtain ⟨rfl, rfl⟩ : received party = earlier ∧ arriving = frame := by
        simpa using List.append_inj' split rfl
      exact ⟨received, rfl, permitted, grows⟩
    · rw [← List.cons_append, ← List.append_assoc] at split
      obtain ⟨old, -⟩ := List.append_inj' split rfl
      obtain ⟨before, here, was, earlier⟩ := delivered party _ frame rest old
      exact ⟨before, here, was, fun other => (earlier other).trans (grows other)⟩
  · rw [Function.update_of_ne same] at split
    obtain ⟨before, here, was, earlier⟩ := delivered party _ frame later split
    exact ⟨before, here, was, fun other => (earlier other).trans (grows other)⟩

/-- The session has derived the keys, and so has a session of the other role, from what it had
received at some time. -/
structure AgreesWith (prims : Primitives) (sessions : Party → PskSession)
    (received : Party → List Frame) (party : Party) (keys : SessionKeys) (peer : Party)
    (seen : List Frame) : Prop where
  own : (sessions party).Computes prims (received party) keys
  role : (sessions peer).role = (sessions party).role.peer
  earlier : seen <+: received peer
  same : (sessions peer).Computes prims seen keys

/-- A session whose key exchange has returned has a peer of the other role that has derived the same
keys and has proved it. -/
theorem exists_prover {prims : Primitives} {psk : AuthPsk} {sessions : Party → PskSession}
    {events : List (Party × Frame)} {received : Party → List Frame}
    (unforged : attackedNetwork.Obeys (Unforgeable prims psk sessions) (fun _ => []) events)
    (run : attackedNetwork.run (fun _ => []) events = some received) {party : Party}
    {sessionKey : SymmetricKey}
    (returns : (sessions party).Returns prims psk (received party) sessionKey) :
    ∃ keys prover seen, keys.sessionKey = sessionKey ∧
      AgreesWith prims sessions received party keys prover seen ∧
      (sessions prover).Proves prims psk seen keys := by
  have delivered : Delivered (Unforgeable prims psk sessions) received :=
    Machine.invariant_of_obeys delivered_of_step (by simp [Delivered]) unforged run
  obtain ⟨keys, earlier, later, rfl, computes, split, computed⟩ := returns.split
  obtain ⟨before, rfl, permitted, seen⟩ := delivered party earlier _ later split
  obtain ⟨prover, proved, proves, same⟩ := permitted keys computed rfl
  obtain ⟨same_key, same_client, same_server, same_role⟩ := authTagInput_injective same
  obtain ⟨sessionKey, clientPublicKey, serverPublicKey⟩ := keys
  obtain ⟨provedKey, provedClient, provedServer⟩ := proved
  obtain ⟨rfl, rfl, rfl⟩ :
      provedKey = sessionKey ∧ provedClient = clientPublicKey ∧ provedServer = serverPublicKey :=
    ⟨same_key, same_client, same_server⟩
  exact ⟨_, prover, before prover, rfl,
    ⟨computes, same_role, seen prover, proves.computes⟩, proves⟩

end Attack

end Etle
