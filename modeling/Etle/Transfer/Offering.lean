import Etle.Transfer.ServeSession

/-!
# When a session offers its share

Before the key exchange is complete a serving session sends nothing about the share.  If a manifest,
a wrapped key, an announcement or a chunk has been sent, whatever has become of the session since,
then the handshake and the key exchange have succeeded and the share has been loaded.
-/

namespace Etle

open Std (TreeSet)

/-- A frame that tells something about a share. -/
def Frame.IsShareData : Frame → Prop
  | .encoded (.manifest _) | .encoded (.wrappedFileKey _ _) | .encoded (.have _)
  | .encoded (.chunk _ _) | .raw _ _ | .cut _ _ => True
  | .encoded _ | .invalid _ => False

/-- A session over the library, or over one share of it. -/
def seederSession (prims : Primitives) (disk : Disk) (libraryRoot : PathBuf) (secret : Bytes32)
    (nonce : Nonce) (seederId : String) (authPsk : Option AuthPsk) :
    Option ShareId → OnStream EtleDescriptor
  | none => libraryConnectedPeer prims disk libraryRoot secret nonce seederId authPsk
  | some shareId => shareConnectedPeer prims disk libraryRoot secret nonce seederId authPsk shareId

/-- How a session has come to offer a share: the handshake and the key exchange have succeeded, the
client has named the share if the session is over the library, and the share has been loaded. -/
structure Offering (prims : Primitives) (disk : Disk) (libraryRoot : PathBuf) (secret : Bytes32)
    (nonce : Nonce) (seederId : String) (authPsk : Option AuthPsk) (share : Option ShareId)
    (before final : Connection) : Prop where
  reached : ∃ (remote : String) (features : List String) (keys : SessionKeys) (shareId : ShareId)
    (loaded : LoadedShare) (middle : Connection),
    (∀ required ∈ requiredCapabilities, required ∈ features) ∧
    (∃ sharedSecret, diffieHellman prims secret keys.clientPublicKey = .ok sharedSecret ∧
      keys = .derive prims sharedSecret keys.clientPublicKey (prims.x25519Public secret)) ∧
    (share = none ∨ share = some shareId) ∧
    before.Passes
      ([.encoded (.hello remote), .encoded (.capabilities etleWireProtocolVersion features)] ++
        .encoded (.keyExchange keys.clientPublicKey) :: keys.proofs prims authPsk .client ++
        (if share.isNone then [.encoded (.requestShare shareId)] else []))
      ([.encoded (.hello seederId),
        .encoded (.capabilities etleWireProtocolVersion requiredCapabilities)] ++
        .encoded (.keyExchange keys.serverPublicKey) :: keys.proofs prims authPsk .server)
      middle ∧
    loadShare prims disk { root := libraryRoot, shareId } = .ok loaded ∧
    final = ((offerShare prims disk nonce { root := libraryRoot, shareId } loaded
      keys.sessionKey).run middle).final

section

variable {prims : Primitives} {disk : Disk} {libraryRoot : PathBuf} {secret : Bytes32}
  {nonce : Nonce} {seederId : String} {authPsk : Option AuthPsk} {share : Option ShareId}

theorem run_receiveRequestedShare_eq_ok {before after : Connection} {shareId : ShareId} :
    receiveRequestedShare.run before = .ok shareId after ↔
      before.Passes [.encoded (.requestShare shareId)] [] after :=
  run_receiveExpected_eq_ok (fun message _ => by cases message <;> simp) (by simp)

/-- A session that has told something about a share has come to offer it. -/
theorem offering_of_told {before : Connection} (fresh : before.Avoids Frame.IsShareData)
    (told : ¬((seederSession prims disk libraryRoot secret nonce seederId authPsk share).run
      before).final.Avoids Frame.IsShareData) :
    Offering prims disk libraryRoot secret nonce seederId authPsk share before
      ((seederSession prims disk libraryRoot secret nonce seederId authPsk share).run
        before).final := by
  have handshake : EStateM.Keeps (Connection.Avoids Frame.IsShareData)
      (serverProtocolHandshake seederId) :=
    keeps_avoids_serverProtocolHandshake (by simp [Frame.IsShareData]) (by simp [Frame.IsShareData])
  have exchange : EStateM.Keeps (Connection.Avoids Frame.IsShareData)
      (serverTransferSessionKeyExchange prims secret authPsk) :=
    keeps_avoids_serverTransferSessionKeyExchange (by simp [Frame.IsShareData])
      (by simp [Frame.IsShareData])
  have naming : EStateM.Keeps (Connection.Avoids Frame.IsShareData) receiveRequestedShare :=
    keeps_avoids_receiveExpected
  cases share with
  | none =>
      simp only [seederSession, libraryConnectedPeer] at told ⊢
      obtain ⟨remote, greeted, shook, greeted_fresh, same⟩ := handshake.escape fresh told
      rw [same] at told ⊢
      obtain ⟨sessionKey, agreed, exchanged, agreed_fresh, same⟩ :=
        exchange.escape greeted_fresh told
      rw [same] at told ⊢
      obtain ⟨shareId, named, asked, named_fresh, same⟩ := naming.escape agreed_fresh told
      rw [same] at told ⊢
      obtain ⟨loaded, middle, found, -, same⟩ :=
        (EStateM.Keeps.liftExcept _ _).escape named_fresh told
      rw [same]
      obtain ⟨loads, rfl⟩ := EStateM.run_liftExcept_eq_ok.mp found
      obtain ⟨features, complete, greeting⟩ := run_serverProtocolHandshake_eq_ok.mp shook
      obtain ⟨keys, rfl, derived, agreement⟩ :=
        run_serverTransferSessionKeyExchange_eq_ok.mp exchanged
      have request := run_receiveRequestedShare_eq_ok.mp asked
      refine ⟨remote, features, keys, shareId, loaded, middle, complete, derived, .inl rfl, ?_,
        loads, rfl⟩
      simpa using (greeting.trans agreement).trans request
  | some shareId =>
      simp only [seederSession, shareConnectedPeer] at told ⊢
      obtain ⟨loaded, start, found, start_fresh, same⟩ :=
        (EStateM.Keeps.liftExcept _ _).escape fresh told
      rw [same] at told ⊢
      obtain ⟨loads, rfl⟩ := EStateM.run_liftExcept_eq_ok.mp found
      obtain ⟨remote, greeted, shook, greeted_fresh, same⟩ := handshake.escape start_fresh told
      rw [same] at told ⊢
      obtain ⟨sessionKey, middle, exchanged, agreed_fresh, same⟩ :=
        exchange.escape greeted_fresh told
      rw [same]
      obtain ⟨features, complete, greeting⟩ := run_serverProtocolHandshake_eq_ok.mp shook
      obtain ⟨keys, rfl, derived, agreement⟩ :=
        run_serverTransferSessionKeyExchange_eq_ok.mp exchanged
      refine ⟨remote, features, keys, shareId, loaded, middle, complete, derived, .inr rfl, ?_,
        loads, rfl⟩
      simpa using greeting.trans agreement

end

end Etle
