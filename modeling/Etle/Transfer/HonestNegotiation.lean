import Etle.Transfer.SeededDownload

/-!
# Negotiating with a seeder

A client and a seeder that have the same pre-shared key, or none, and of which one names the share
get through the negotiation: the client ends it with the manifest, the file key and the chunks that
the seeder has loaded.
-/

namespace Etle

open Std (TreeSet)

/-- The keys that a client and a seeder agree on. -/
def agreedKeys (prims : Primitives) (clientSecret serverSecret : Bytes32) : SessionKeys :=
  .derive prims (prims.x25519 clientSecret (prims.x25519Public serverSecret))
    (prims.x25519Public clientSecret) (prims.x25519Public serverSecret)

/-- The share a session is about when either side names it, but not both. -/
def Seeder.Offers (seeder : Seeder) (options : DownloadFileOptions) (shareId : ShareId) : Prop :=
  seeder.share = none ∧ options.requestedShareId = some shareId ∨
    seeder.share = some shareId ∧ options.requestedShareId = none

/-- What a client knows of a share after the negotiation. -/
def LoadedShare.peer (loaded : LoadedShare) : ConnectedDownloadPeer where
  manifest := loaded.manifest
  fileKey := loaded.fileKey
  availableChunks := loaded.availableChunks.foldl (fun set index => set.insert index) ∅

section

variable (prims : Primitives) (seeder : Seeder) (options : DownloadFileOptions) (secret : Bytes32)

/-- What the client sends before the first chunk. -/
def Seeder.requests : List Frame :=
  negotiationRequests prims options (agreedKeys prims secret seeder.secret)

/-- An undisturbed connection to a seeder. -/
def Seeder.link : PeerLink where
  connected := .ok {
    replies := seeder.sent prims (seeder.requests prims options secret) none
    sendLimit := none
    sent := [] }
  secret

/-- The seeder's answers when it serves a share that it has loaded. -/
def Seeder.replies (loaded : LoadedShare) (wrapped : WrappedFileKey) : NegotiationReplies where
  remote := seeder.seederId
  features := requiredCapabilities
  keys := agreedKeys prims secret seeder.secret
  manifest := loaded.manifest
  wrapped := wrapped
  chunks := loaded.availableChunks

end

section

variable {prims : Primitives} {seeder : Seeder} {options : DownloadFileOptions} {secret : Bytes32}
  {shareId : ShareId} {loaded : LoadedShare}

/-- A key can be wrapped when short texts can be encrypted. -/
theorem exists_wrapFileKey (encrypts : prims.EncryptsShort) (sessionKey fileKey : SymmetricKey)
    (fileId : FileId) (nonce : Nonce) :
    ∃ wrapped, wrapFileKey prims sessionKey fileId fileKey nonce = .ok wrapped := by
  obtain ⟨data, encrypted⟩ := encrypts sessionKey nonce fileKey.bytes.toList
    (buildFileKeyAad fileId) (by simp)
  refine ⟨⟨nonce, data⟩, ?_⟩
  simp [wrapFileKey, encryptChunk, encrypted, bind, Except.bind, pure, Except.pure]

/-- Whatever is received and sent passes on a connection that takes everything. -/
theorem Connection.passes_of_open {received rest : List Frame} (sofar sent : List Frame) :
    ({ replies := received ++ rest, sendLimit := none, sent := sofar } : Connection).Passes
      received sent { replies := rest, sendLimit := none, sent := sofar ++ sent } :=
  ⟨rfl, by simp, rfl, rfl⟩

theorem run_send_of_open (message : WireMessage) (replies sofar : List Frame) :
    (send message).run { replies, sendLimit := none, sent := sofar } =
      .ok () { replies, sendLimit := none, sent := sofar ++ [.encoded message] } := rfl

/-- An offer to a client that sends nothing more. -/
theorem run_offerShare_of_open {disk : Disk} {nonce : Nonce} {paths : LibraryPaths}
    {sessionKey : SymmetricKey} {wrapped : WrappedFileKey} (sofar : List Frame)
    (locked : wrapFileKey prims sessionKey loaded.manifest.fileId loaded.fileKey nonce =
      .ok wrapped) :
    (offerShare prims disk nonce paths loaded sessionKey).run
        { replies := [], sendLimit := none, sent := sofar } =
      .ok loaded.descriptor {
        replies := []
        sendLimit := none
        sent := sofar ++ [.encoded (.manifest loaded.manifest),
          .encoded (.wrappedFileKey wrapped.nonce wrapped.data),
          .encoded (.have loaded.availableChunks)] } := by
  have silent (connection : Connection) :
      (serveChunks (.load prims disk paths loaded.descriptor) [] ∅).run connection =
        .ok () connection := by
    unfold serveChunks
    split <;> rfl
  simp [offerShare, EStateM.run_bind, run_send_of_open, locked, silent, -bind_pure_comp]

/-- A seeder that hears what the client sends answers with its offer. -/
theorem sent_seeder (agreement : prims.AgreementCorrect)
    (asked : seeder.Offers options shareId) (same : options.authPsk = seeder.authPsk)
    {sharedSecret : Bytes32}
    (usable : diffieHellman prims secret (prims.x25519Public seeder.secret) = .ok sharedSecret)
    (loads : loadShare prims seeder.disk { root := seeder.libraryRoot, shareId } = .ok loaded)
    {wrapped : WrappedFileKey}
    (locked : wrapFileKey prims (agreedKeys prims secret seeder.secret).sessionKey
      loaded.manifest.fileId loaded.fileKey seeder.nonce = .ok wrapped) :
    seeder.sent prims (seeder.requests prims options secret) none =
      (seeder.replies prims secret loaded wrapped).frames prims options := by
  -- The seeder derives the same keys from the other half of the agreement.
  obtain ⟨rfl, usable_value⟩ := diffieHellman_eq_ok.mp usable
  have derived : ∃ sharedSecret,
      diffieHellman prims seeder.secret (agreedKeys prims secret seeder.secret).clientPublicKey =
        .ok sharedSecret ∧
      agreedKeys prims secret seeder.secret = .derive prims sharedSecret
        (agreedKeys prims secret seeder.secret).clientPublicKey
        (prims.x25519Public seeder.secret) :=
    ⟨_, diffieHellman_eq_ok.mpr ⟨(agreement secret seeder.secret).symm, usable_value⟩, rfl⟩
  have greeted (rest sofar : List Frame) := run_serverProtocolHandshake_eq_ok.mpr
    ⟨requiredCapabilities, fun _ member => member, @Connection.passes_of_open
      [.encoded (.hello options.peerId),
        .encoded (.capabilities etleWireProtocolVersion requiredCapabilities)] rest sofar
      [.encoded (.hello seeder.seederId),
        .encoded (.capabilities etleWireProtocolVersion requiredCapabilities)]⟩
  have exchanged (rest sofar : List Frame) := run_serverTransferSessionKeyExchange_eq_ok.mpr
    ⟨agreedKeys prims secret seeder.secret, rfl, derived, @Connection.passes_of_open
      (.encoded (.keyExchange (agreedKeys prims secret seeder.secret).clientPublicKey) ::
        (agreedKeys prims secret seeder.secret).proofs prims seeder.authPsk .client) rest sofar _⟩
  have offered (sofar : List Frame) := @run_offerShare_of_open prims loaded seeder.disk seeder.nonce
    { root := seeder.libraryRoot, shareId } _ wrapped sofar locked
  rcases asked with ⟨over_library, named⟩ | ⟨over_share, unnamed⟩
  · have requests : seeder.requests prims options secret =
        [.encoded (.hello options.peerId),
          .encoded (.capabilities etleWireProtocolVersion requiredCapabilities)] ++
        ((.encoded (.keyExchange (agreedKeys prims secret seeder.secret).clientPublicKey) ::
          (agreedKeys prims secret seeder.secret).proofs prims seeder.authPsk .client) ++
          [.encoded (.requestShare shareId)]) := by
      simp [Seeder.requests, negotiationRequests, named, same]
    have asks (sofar : List Frame) := run_receiveRequestedShare_eq_ok.mpr
      (@Connection.passes_of_open [.encoded (.requestShare shareId)] [] sofar [])
    simp only [List.append_nil] at asks
    simp only [Seeder.sent, over_library, seederSession, libraryConnectedPeer, requests,
      EStateM.run_bind, greeted, exchanged, asks, loads, EStateM.run_liftExcept_ok,
      offered]
    simp [EStateM.Result.final, Seeder.replies, NegotiationReplies.frames, same]
  · have requests : seeder.requests prims options secret =
        [.encoded (.hello options.peerId),
          .encoded (.capabilities etleWireProtocolVersion requiredCapabilities)] ++
        ((.encoded (.keyExchange (agreedKeys prims secret seeder.secret).clientPublicKey) ::
          (agreedKeys prims secret seeder.secret).proofs prims seeder.authPsk .client) ++ []) := by
      simp [Seeder.requests, negotiationRequests, unnamed, same]
    simp only [Seeder.sent, over_share, seederSession, shareConnectedPeer, requests,
      EStateM.run_bind, greeted, exchanged, loads, EStateM.run_liftExcept_ok, offered]
    simp [EStateM.Result.final, Seeder.replies, NegotiationReplies.frames, same]

/-- The client ends the negotiation with what the seeder has loaded. -/
theorem negotiation_completes (correct : prims.AeadCorrect) (encrypts : prims.EncryptsShort)
    (agreement : prims.AgreementCorrect) (asked : seeder.Offers options shareId)
    (same : options.authPsk = seeder.authPsk) {sharedSecret : Bytes32}
    (usable : diffieHellman prims secret (prims.x25519Public seeder.secret) = .ok sharedSecret)
    (loads : loadShare prims seeder.disk { root := seeder.libraryRoot, shareId } = .ok loaded) :
    ∃ connection rest, (seeder.link prims options secret).connected = .ok connection ∧
      (connectDownloadPeer prims secret options).run connection = .ok loaded.peer rest ∧
      rest.sendLimit = none := by
  obtain ⟨wrapped, locked⟩ := exists_wrapFileKey encrypts
    (agreedKeys prims secret seeder.secret).sessionKey loaded.fileKey loaded.manifest.fileId
    seeder.nonce
  have answers := sent_seeder agreement asked same usable loads locked
  obtain ⟨rfl, -⟩ := diffieHellman_eq_ok.mp usable
  have negotiated : (connectDownloadPeer prims secret options).run {
      replies := (seeder.replies prims secret loaded wrapped).frames prims options ++ []
      sendLimit := none
      sent := [] } = .ok loaded.peer _ :=
    run_connectDownloadPeer_eq_ok.mpr ⟨seeder.replies prims secret loaded wrapped,
      ⟨fun _ member => member, ⟨_, usable, rfl⟩, unwrapFileKey_of_wrapFileKey correct locked⟩, rfl,
      Connection.passes_of_open [] _⟩
  rw [List.append_nil, ← answers] at negotiated
  exact ⟨_, _, rfl, negotiated, rfl⟩

end

end Etle
