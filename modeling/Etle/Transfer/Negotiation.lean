import Etle.Transfer.Download

/-!
# When a negotiation completes

The replies that let a client through the negotiation: hello, matching capabilities, a public key
with a usable shared secret, the server's proof if there is a pre-shared key, a manifest, a wrapped
file key that opens, and the available chunks.  The manifest can be any manifest.
-/

namespace Etle

open Std (TreeSet)

section Steps

variable {before after : Connection}

theorem run_receiveManifest_eq_ok {manifest : Manifest} :
    receiveManifest.run before = .ok manifest after ↔
      before.Passes [.encoded (.manifest manifest)] [] after :=
  run_receiveExpected_eq_ok (fun message _ => by cases message <;> simp) (by simp)

theorem run_receiveWrappedFileKey_eq_ok {wrapped : WrappedFileKey} :
    receiveWrappedFileKey.run before = .ok wrapped after ↔
      before.Passes [.encoded (.wrappedFileKey wrapped.nonce wrapped.data)] [] after := by
  refine @run_receiveExpected_eq_ok WrappedFileKey _ _
    (fun wrapped => .wrappedFileKey wrapped.nonce wrapped.data) (fun message value => ?_) (by simp)
    _ _ _
  cases message <;> cases value <;> simp

theorem run_receivePeerAvailability_eq_ok {available : TreeSet UInt32} :
    receivePeerAvailability.run before = .ok available after ↔
      ∃ chunks, available = chunks.foldl (fun set index => set.insert index) ∅ ∧
        before.Passes [.encoded (.have chunks)] [] after := by
  simp only [receivePeerAvailability, EStateM.run_bind_eq_ok, run_receive_eq_ok]
  constructor
  · rintro ⟨message, -, ⟨rest, frame, rfl⟩, matched⟩
    cases message <;> simp at matched
    rename_i chunks
    obtain ⟨rfl, rfl⟩ := matched
    exact ⟨chunks, rfl, passes_of_replies ((receiveFrame_eq_ok (by simp)).mp frame)⟩
  · rintro ⟨chunks, rfl, passes⟩
    have replies : before.replies = .encoded (.have chunks) :: after.replies := passes.replies
    refine ⟨.have chunks, _,
      ⟨after.replies, (receiveFrame_eq_ok (by simp)).mpr replies, rfl⟩, ?_⟩
    rw [passes.unique (passes_of_replies replies)]
    rfl

theorem run_sendRequestedShareIfNeeded_eq_ok {requested : Option ShareId} {value : Unit} :
    (sendRequestedShareIfNeeded requested).run before = .ok value after ↔
      before.Passes [] (requested.toList.map fun shareId => .encoded (.requestShare shareId))
        after := by
  cases requested with
  | none => simp [sendRequestedShareIfNeeded, eq_comm]
  | some shareId => exact run_send_eq_ok

end Steps

/-- What a client sends in a completed negotiation. -/
def negotiationRequests (prims : Primitives) (options : DownloadFileOptions) (keys : SessionKeys) :
    List Frame :=
  [.encoded (.hello options.peerId),
    .encoded (.capabilities etleWireProtocolVersion requiredCapabilities)] ++
    .encoded (.keyExchange keys.clientPublicKey) :: keys.proofs prims options.authPsk .client ++
    options.requestedShareId.toList.map fun shareId => .encoded (.requestShare shareId)

/-- What a client receives in a completed negotiation. -/
structure NegotiationReplies where
  remote : String
  features : List String
  keys : SessionKeys
  manifest : Manifest
  wrapped : WrappedFileKey
  chunks : List UInt32

/-- The frames of these replies. -/
def NegotiationReplies.frames (prims : Primitives) (options : DownloadFileOptions)
    (replies : NegotiationReplies) : List Frame :=
  [.encoded (.hello replies.remote),
    .encoded (.capabilities etleWireProtocolVersion replies.features)] ++
    .encoded (.keyExchange replies.keys.serverPublicKey) ::
      replies.keys.proofs prims options.authPsk .server ++
    [.encoded (.manifest replies.manifest),
      .encoded (.wrappedFileKey replies.wrapped.nonce replies.wrapped.data),
      .encoded (.have replies.chunks)]

/-- Replies that a client accepts: nothing is missing from the capabilities, the public key gives
the session key, and the wrapped key opens under it. -/
structure NegotiationReplies.Accepted (prims : Primitives) (secret : Bytes32)
    (fileKey : SymmetricKey) (replies : NegotiationReplies) : Prop where
  capabilities : ∀ required ∈ requiredCapabilities, required ∈ replies.features
  keys : ∃ sharedSecret,
    diffieHellman prims secret replies.keys.serverPublicKey = .ok sharedSecret ∧
    replies.keys = .derive prims sharedSecret (prims.x25519Public secret)
      replies.keys.serverPublicKey
  unwraps : unwrapFileKey prims replies.keys.sessionKey replies.manifest.fileId replies.wrapped =
    .ok fileKey

/-- The peer as the client sees it after these replies. -/
def NegotiationReplies.peer (replies : NegotiationReplies) (fileKey : SymmetricKey) :
    ConnectedDownloadPeer where
  manifest := replies.manifest
  fileKey := fileKey
  availableChunks := replies.chunks.foldl (fun set index => set.insert index) ∅

/-- A negotiation completes exactly when the peer sends accepted replies and takes what the client
sends. -/
theorem run_connectDownloadPeer_eq_ok {prims : Primitives} {secret : Bytes32}
    {options : DownloadFileOptions} {before after : Connection} {peer : ConnectedDownloadPeer} :
    (connectDownloadPeer prims secret options).run before = .ok peer after ↔
      ∃ replies : NegotiationReplies, replies.Accepted prims secret peer.fileKey ∧
        peer = replies.peer peer.fileKey ∧
        before.Passes (replies.frames prims options)
          (negotiationRequests prims options replies.keys) after := by
  simp only [connectDownloadPeer, EStateM.run_bind_eq_ok, run_clientProtocolHandshake_eq_ok,
    run_clientTransferSessionKeyExchange_eq_ok, run_sendRequestedShareIfNeeded_eq_ok,
    run_receiveManifest_eq_ok, run_receiveWrappedFileKey_eq_ok, EStateM.run_liftExcept_eq_ok,
    run_receivePeerAvailability_eq_ok, EStateM.run_pure, EStateM.Result.ok.injEq]
  constructor
  · rintro ⟨remote, _, ⟨features, complete, greeted⟩, _, _, ⟨keys, rfl, derived, exchanged⟩,
      _, _, requested, manifest, _, described, wrapped, _, locked, fileKey, _, ⟨opened, rfl⟩,
      _, _, ⟨chunks, rfl, announced⟩, rfl, rfl⟩
    refine ⟨⟨remote, features, keys, manifest, wrapped, chunks⟩, ⟨complete, derived, opened⟩, rfl,
      ?_⟩
    have passes := ((greeted.trans exchanged).trans requested).trans
      ((described.trans locked).trans announced)
    simpa [NegotiationReplies.frames, negotiationRequests] using passes
  · rintro ⟨⟨remote, features, keys, manifest, wrapped, chunks⟩, ⟨complete, derived, opened⟩,
      same, passes⟩
    obtain ⟨_, early, late⟩ := Connection.Passes.split passes
    obtain ⟨_, greeted, exchanged⟩ := Connection.Passes.split early
    rw [← List.append_nil (options.requestedShareId.toList.map _)] at late
    obtain ⟨_, requested, passes⟩ := @Connection.Passes.split _ _ [] _ _ [] late
    obtain ⟨_, described, passes⟩ := Connection.Passes.cons_received.mp passes
    obtain ⟨_, locked, announced⟩ := Connection.Passes.cons_received.mp passes
    exact ⟨remote, _, ⟨features, complete, greeted⟩, _, _, ⟨keys, rfl, derived, exchanged⟩, (), _,
      requested, manifest, _, described, wrapped, _, locked, peer.fileKey, _, ⟨opened, rfl⟩, _, _,
      ⟨chunks, rfl, announced⟩, same.symm, rfl⟩

/-! ## A peer that offers a share -/

section Offer

variable (prims : Primitives) (options : DownloadFileOptions) (secret : Bytes32)
  (publicKey : PublicKeyBytes) (manifest : Manifest) (wrapped : WrappedFileKey)
  (chunks : List UInt32)

/-- The replies of a peer that offers a share to the client with an ephemeral secret. -/
def offeringReplies : NegotiationReplies where
  remote := "seeder"
  features := requiredCapabilities
  keys := .derive prims (prims.x25519 secret publicKey) (prims.x25519Public secret) publicKey
  manifest := manifest
  wrapped := wrapped
  chunks := chunks

/-- A peer that offers a share and takes everything the client sends. -/
def offeringLink : PeerLink where
  connected := .ok {
    replies := (offeringReplies prims secret publicKey manifest wrapped chunks).frames prims options
    sendLimit := none
    sent := [] }
  secret := secret

variable {prims secret publicKey manifest wrapped}

/-- An offer is accepted when the key exchange is usable and the wrapped key opens. -/
theorem run_connectDownloadPeer_offeringLink {sharedSecret : Bytes32} {fileKey : SymmetricKey}
    (agreed : diffieHellman prims secret publicKey = .ok sharedSecret)
    (opens : unwrapFileKey prims (deriveSessionKeyWithTranscript prims sharedSecret
      (prims.x25519Public secret) publicKey) manifest.fileId wrapped = .ok fileKey) :
    ∃ connection after,
      (offeringLink prims options secret publicKey manifest wrapped chunks).connected =
        .ok connection ∧
      (connectDownloadPeer prims secret options).run connection =
        .ok ((offeringReplies prims secret publicKey manifest wrapped chunks).peer fileKey) after ∧
      after.sendLimit = none := by
  obtain ⟨rfl, -⟩ := diffieHellman_eq_ok.mp agreed
  refine ⟨_, ⟨[], none, _⟩, rfl, run_connectDownloadPeer_eq_ok.mpr
    ⟨offeringReplies prims secret publicKey manifest wrapped chunks,
      ⟨fun _ member => member, ⟨_, agreed, rfl⟩, opens⟩, rfl, ⟨?_, ?_, rfl, rfl⟩⟩, rfl⟩
  · simp
  · simp

end Offer

end Etle
