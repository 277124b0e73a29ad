import Etle.Transfer.CompletedDownload
import Etle.Transfer.RequestedShare
import Etle.Transfer.ServableShare
import Etle.Transfer.ServeTurns

/-!
# Downloading what was seeded

A client that negotiates with a seeder over a connection that delivers frames unchanged and in order
ends up with the manifest and the file key that the seeder has stored.  Whatever is in its library,
a download that succeeds is then the seeded file, stored as a share like the seeder's own.
-/

namespace Etle

open Std (TreeMap TreeSet)

/-! ## What an offer sends -/

section

variable {prims : Primitives} {disk : Disk} {paths : LibraryPaths} {nonce : Nonce}
  {loaded : LoadedShare} {sessionKey : SymmetricKey}

theorem keeps_prefix_serveChunks {base : List Frame} (share : ServedShare) (frames : List Frame)
    (servedOrKnown : TreeSet UInt32) :
    EStateM.Keeps (fun connection => base <+: connection.sent)
      (serveChunks share frames servedOrKnown) := by
  intro connection sent
  rw [sent_serveChunks]
  exact sent.trans (List.prefix_append _ _)

/-- An offer stops with its first message at the latest, or sends the manifest and the wrapped file
key first. -/
theorem sent_offerShare (before : Connection) :
    (∃ tail, tail.length ≤ 1 ∧ ((offerShare prims disk nonce paths loaded sessionKey).run
      before).final.sent = before.sent ++ tail) ∨
    ∃ wrapped, wrapFileKey prims sessionKey loaded.manifest.fileId loaded.fileKey nonce =
        .ok wrapped ∧
      before.sent ++ [.encoded (.manifest loaded.manifest),
        .encoded (.wrappedFileKey wrapped.nonce wrapped.data)] <+:
        ((offerShare prims disk nonce paths loaded sessionKey).run before).final.sent := by
  rw [offerShare, EStateM.run_bind]
  cases described : (send (.manifest loaded.manifest)).run before with
  | error failure left =>
      obtain rfl := eq_of_run_send_eq_error described
      exact .inl ⟨[], by simp, by simp⟩
  | ok value first =>
      have first_sent := (run_send_eq_ok.mp described).sent
      dsimp only
      rw [EStateM.run_bind]
      cases locked : wrapFileKey prims sessionKey loaded.manifest.fileId loaded.fileKey nonce with
      | error failure =>
          exact .inl ⟨[.encoded (.manifest loaded.manifest)], by simp, by simpa using first_sent⟩
      | ok wrapped =>
          rw [EStateM.run_liftExcept_ok]
          dsimp only
          rw [EStateM.run_bind]
          cases sent : (send (.wrappedFileKey wrapped.nonce wrapped.data)).run first with
          | error failure left =>
              obtain rfl := eq_of_run_send_eq_error sent
              exact .inl ⟨[.encoded (.manifest loaded.manifest)], by simp,
                by simpa using first_sent⟩
          | ok value second =>
              have second_sent := (run_send_eq_ok.mp sent).sent
              refine .inr ⟨wrapped, rfl, ?_⟩
              have rest : EStateM.Keeps (fun connection => second.sent <+: connection.sent)
                  (do
                    send (.have loaded.availableChunks)
                    serveChunks (.load prims disk paths loaded.descriptor) (← get).replies ∅
                    return loaded.descriptor : OnStream EtleDescriptor) :=
                keeps_prefix_sendFrame.bind fun _ => .bind (fun _ sent => sent) fun connection =>
                  (keeps_prefix_serveChunks _ _ _).bind fun _ => .pure _
              have all := rest second (List.prefix_refl _)
              rw [second_sent, first_sent, List.append_assoc] at all
              exact all

end

/-! ## A connection that delivers what is sent -/

/-- A seeder that answers one connection. -/
structure Seeder where
  disk : Disk
  libraryRoot : PathBuf
  secret : Bytes32
  nonce : Nonce
  seederId : String
  authPsk : Option AuthPsk
  /-- The share it serves; `none` means that the client names a share of the library. -/
  share : Option ShareId

/-- What the seeder has sent when it has received the given frames. -/
def Seeder.sent (prims : Primitives) (seeder : Seeder) (received : List Frame)
    (sendLimit : Option (Nat × ProtocolError)) : List Frame :=
  ((seederSession prims seeder.disk seeder.libraryRoot seeder.secret seeder.nonce seeder.seederId
    seeder.authPsk seeder.share).run { replies := received, sendLimit, sent := [] }).final.sent

/-- The client is served by a seeder: what it receives is what the seeder sends, and what the seeder
receives is what the client sends, in order and up to some point. -/
structure ServedBy (prims : Primitives) (seeder : Seeder) (secret : Bytes32)
    (options : DownloadFileOptions) (connection : Connection) : Prop where
  fresh : connection.sent = []
  delivered : ∃ received sendLimit,
    connection.replies <+: seeder.sent prims received sendLimit ∧
    (received <+: ((connectDownloadPeer prims secret options).run connection).final.sent ∨
      ((connectDownloadPeer prims secret options).run connection).final.sent <+: received)

/-- Both ends of an agreement derive the same keys. -/
theorem keys_agree {prims : Primitives} (agreement : prims.AgreementCorrect)
    {clientSecret serverSecret clientShared serverShared : Bytes32} {client server : SessionKeys}
    (client_agreed : diffieHellman prims clientSecret client.serverPublicKey = .ok clientShared)
    (client_derived : client = .derive prims clientShared (prims.x25519Public clientSecret)
      client.serverPublicKey)
    (server_agreed : diffieHellman prims serverSecret server.clientPublicKey = .ok serverShared)
    (server_derived : server = .derive prims serverShared server.clientPublicKey
      (prims.x25519Public serverSecret))
    (same_client : client.clientPublicKey = server.clientPublicKey)
    (same_server : client.serverPublicKey = server.serverPublicKey) : client = server := by
  have client_key : client.clientPublicKey = prims.x25519Public clientSecret :=
    congrArg SessionKeys.clientPublicKey client_derived
  have server_key : server.serverPublicKey = prims.x25519Public serverSecret :=
    congrArg SessionKeys.serverPublicKey server_derived
  have shared : clientShared = serverShared := by
    rw [← (diffieHellman_eq_ok.mp client_agreed).1, ← (diffieHellman_eq_ok.mp server_agreed).1,
      same_server, server_key, ← same_client, client_key]
    exact agreement clientSecret serverSecret
  rw [client_derived, server_derived, shared, ← same_client, client_key, same_server, server_key]

/-- What a seeder sends up to its offer, in the words of `Offering`. -/
def offerFrames (prims : Primitives) (seederId : String) (psk : Option AuthPsk)
    (keys : SessionKeys) : List Frame :=
  [.encoded (.hello seederId),
    .encoded (.capabilities etleWireProtocolVersion requiredCapabilities)] ++
    .encoded (.keyExchange keys.serverPublicKey) :: keys.proofs prims psk .server

/-- An offer that a client has received is the one that was sent. -/
theorem offer_aligned {prims : Primitives} {options : DownloadFileOptions} {seederId : String}
    {replies : NegotiationReplies} {psk : Option AuthPsk} {keys : SessionKeys}
    {manifest : Manifest} {wrapped : WrappedFileKey}
    (first : offerFrames prims seederId psk keys ++ [.encoded (.manifest manifest),
      .encoded (.wrappedFileKey wrapped.nonce wrapped.data)] <+: replies.frames prims options) :
    replies.keys.serverPublicKey = keys.serverPublicKey ∧ replies.manifest = manifest ∧
      replies.wrapped = wrapped ∧ options.authPsk.isSome = psk.isSome := by
  obtain ⟨nonce, data⟩ := wrapped
  cases client : options.authPsk <;> cases psk <;>
    simp [offerFrames, NegotiationReplies.frames, SessionKeys.proofs, client] at first ⊢
  · obtain ⟨-, -, server_key, described, nonce_eq, data_eq⟩ := first
    exact ⟨server_key.symm, described.symm, by rw [nonce_eq, data_eq]⟩
  · obtain ⟨-, -, server_key, -, described, nonce_eq, data_eq⟩ := first
    exact ⟨server_key.symm, described.symm, by rw [nonce_eq, data_eq]⟩

/-- What a seeder consumes before it offers a share, in the words of `Offering`. -/
def requestFrames (prims : Primitives) (remote : String) (features : List String)
    (psk : Option AuthPsk) (keys : SessionKeys) (named : Option ShareId) : List Frame :=
  [.encoded (.hello remote), .encoded (.capabilities etleWireProtocolVersion features)] ++
    .encoded (.keyExchange keys.clientPublicKey) :: keys.proofs prims psk .client ++
    named.toList.map fun shareId => .encoded (.requestShare shareId)

/-- Requests that a seeder has received are those that were sent. -/
theorem requests_aligned {prims : Primitives} {options : DownloadFileOptions} {remote : String}
    {features : List String} {psk : Option AuthPsk} {keys clientKeys : SessionKeys}
    {named : Option ShareId} (same : options.authPsk.isSome = psk.isSome)
    (comparable :
      requestFrames prims remote features psk keys named <+:
          negotiationRequests prims options clientKeys ∨
        negotiationRequests prims options clientKeys <+:
          requestFrames prims remote features psk keys named) :
    clientKeys.clientPublicKey = keys.clientPublicKey ∧
      ∀ shareId, named = some shareId → ∀ requested, options.requestedShareId = some requested →
        requested = shareId := by
  cases client : options.authPsk <;> cases psk <;> cases named <;>
    cases requested : options.requestedShareId <;>
    simp [requestFrames, negotiationRequests, SessionKeys.proofs, client, requested]
      at same comparable ⊢ <;>
    grind

/-- A client that is served by a seeder gets the manifest and the file key of the share that the
seeder serves or that the client has named. -/
theorem offer_of_servedBy {prims : Primitives} (correct : prims.AeadCorrect)
    (agreement : prims.AgreementCorrect) {seeder : Seeder} {secret : Bytes32}
    {options : DownloadFileOptions} {connection rest : Connection} {peer : ConnectedDownloadPeer}
    (served : ServedBy prims seeder secret options connection)
    (negotiated : (connectDownloadPeer prims secret options).run connection = .ok peer rest) :
    ∃ shareId loaded,
      (seeder.share = some shareId ∨ seeder.share = none ∧
        ∀ requested, options.requestedShareId = some requested → requested = shareId) ∧
      loadShare prims seeder.disk { root := seeder.libraryRoot, shareId } = .ok loaded ∧
      peer.manifest = loaded.manifest ∧ peer.fileKey = loaded.fileKey := by
  obtain ⟨fresh, received, sendLimit, delivered, sent⟩ := served
  rw [negotiated] at sent
  obtain ⟨replies, accepted, known, passes⟩ := run_connectDownloadPeer_eq_ok.mp negotiated
  have answered : replies.frames prims options <+: seeder.sent prims received sendLimit := by
    refine List.IsPrefix.trans ?_ delivered
    rw [passes.replies]
    exact List.prefix_append _ _
  have client_sent : rest.sent = negotiationRequests prims options replies.keys := by
    rw [passes.sent, fresh, List.nil_append]
  have told : ¬((seederSession prims seeder.disk seeder.libraryRoot seeder.secret seeder.nonce
      seeder.seederId seeder.authPsk seeder.share).run
        { replies := received, sendLimit, sent := [] }).final.Avoids Frame.IsShareData := by
    intro avoids
    have member : .encoded (.manifest replies.manifest) ∈ replies.frames prims options := by
      simp [NegotiationReplies.frames]
    exact avoids _ (answered.subset member) trivial
  obtain ⟨remote, features, keys, shareId, loaded, middle, -, ⟨shared, agreed, derived⟩, chosen,
    offered, loads, ends⟩ := (offering_of_told (fun _ member => by cases member) told).reached
  obtain ⟨clientShared, client_agreed, client_derived⟩ := accepted.keys
  have middle_sent : middle.sent = offerFrames prims seeder.seederId seeder.authPsk keys :=
    offered.sent
  rw [Seeder.sent, ends] at answered
  obtain ⟨tail, short, stopped⟩ | ⟨wrapped, locked, begun⟩ :=
    @sent_offerShare prims seeder.disk { root := seeder.libraryRoot, shareId } seeder.nonce loaded
      keys.sessionKey middle
  · have length := answered.length_le
    rw [stopped, middle_sent] at length
    cases client : options.authPsk <;> cases server : seeder.authPsk <;>
      simp [offerFrames, NegotiationReplies.frames, SessionKeys.proofs, client, server]
        at length <;> omega
  · have first : middle.sent ++ [.encoded (.manifest loaded.manifest),
        .encoded (.wrappedFileKey wrapped.nonce wrapped.data)] <+:
        replies.frames prims options := by
      refine List.prefix_of_prefix_length_le begun answered ?_
      rw [middle_sent]
      cases client : options.authPsk <;> cases server : seeder.authPsk <;>
        simp [offerFrames, NegotiationReplies.frames, SessionKeys.proofs, client]
    rw [middle_sent] at first
    obtain ⟨same_server, same_manifest, same_wrapped, same_psk⟩ := offer_aligned first
    -- What the seeder has consumed and what the client has sent are prefixes of one stream.
    have asked : requestFrames prims remote features seeder.authPsk keys
        (if seeder.share.isNone then some shareId else none) <+: received := by
      refine ⟨middle.replies, ?_⟩
      rw [show received = _ from offered.replies]
      cases seeder.share <;> simp [requestFrames]
    have comparable := sent.elim (fun shorter => Or.inl (asked.trans shorter))
      fun longer => List.prefix_or_prefix_of_prefix asked longer
    rw [show (EStateM.Result.ok peer rest : EStateM.Result NetworkError _ _).final.sent = _ from
      client_sent] at comparable
    obtain ⟨same_client, same_share⟩ := requests_aligned same_psk comparable
    have same_keys : replies.keys = keys := keys_agree agreement client_agreed client_derived agreed
      derived same_client same_server
    refine ⟨shareId, loaded, ?_, loads, ?_, ?_⟩
    · obtain over_library | over_share := chosen
      · exact .inr ⟨over_library, same_share shareId (by simp [over_library])⟩
      · exact .inl over_share
    · rw [known, ← same_manifest]
      rfl
    · have opens := accepted.unwraps
      rw [same_keys, same_manifest, same_wrapped,
        unwrapFileKey_of_wrapFileKey correct locked] at opens
      exact (Except.ok.inj opens).symm

/-! ## The downloaded share -/

/-- What a session loads depends on the share directory only. -/
theorem loadShare_congr {prims : Primitives} {first second : Disk} {paths : LibraryPaths}
    (same : first paths = second paths) :
    loadShare prims first paths = loadShare prims second paths := by
  simp [loadShare, readDescriptor, readSecret, availableChunkIndexes, hasChunk, chunkVerifies,
    readChunk, same]

/-- Progress whose chunks are those of an increasing list is that list. -/
theorem completedChunks_eq {progress : DownloadProgress} (ordered : progress.Ordered)
    {indices : List UInt32} (increasing : indices.Pairwise (· < ·))
    (same : ∀ index, index ∈ progress.completedChunks ↔ index ∈ indices) :
    progress.completedChunks = indices := by
  have sorted : progress.completedChunks.Pairwise (· < ·) :=
    ordered.imp fun less => Std.compare_eq_lt.mp less
  exact sorted.eq_of_mem_iff increasing same

/-- The chunks of a seeded share have increasing indices. -/
theorem indices_increasing_of_addStreaming {prims : Primitives} {input : SeedInput}
    {fileKey : SymmetricKey} {chunkSize : Nat} {libraryRoot : PathBuf} {schedule : SeedSchedule}
    {before after : Disk} {descriptor : EtleDescriptor}
    (added : addStreaming prims input fileKey chunkSize libraryRoot schedule before =
      some (.ok descriptor after)) :
    (descriptor.chunks.map ChunkMeta.index).Pairwise (· < ·) := by
  obtain ⟨manifest, rfl, -, increasing, -⟩ := addStreaming_ok added
  exact increasing

/-- Whatever earlier attempts have left in the library, a download from a seeder of a share that
succeeds writes the seeded file and stores the share as the seeder has it: its descriptor, its key,
and all of its chunks, recorded as completed. -/
theorem completedDownload_is_seeded (prims : Primitives) (correct : prims.AeadCorrect)
    (agreement : prims.AgreementCorrect) (input : SeedInput)
    (unique : prims.NoSecondPreimage input.content) (fileKey : SymmetricKey) (chunkSize : Nat)
    (seedSchedule : SeedSchedule) (empty seeded : Disk) (descriptor : EtleDescriptor)
    (seeder : Seeder)
    (added : addStreaming prims input fileKey chunkSize seeder.libraryRoot seedSchedule empty =
      some (.ok descriptor seeded))
    (stored : seeder.disk { root := seeder.libraryRoot, shareId := descriptor.shareId } =
      seeded { root := seeder.libraryRoot, shareId := descriptor.shareId })
    (outputPath : PathBuf) (options : DownloadFileOptions) (root : PathBuf)
    (withLibrary : options.libraryRoot = some root)
    (asked : seeder.share = some descriptor.shareId ∨
      seeder.share = none ∧ options.requestedShareId = some descriptor.shareId)
    (attempt : Attempt) (connection : Connection)
    (connected : attempt.link.connected = .ok connection)
    (served : ServedBy prims seeder attempt.link.secret options connection)
    (world after : DownloadWorld) (manifest : Manifest)
    (finished : fromPeerWith prims outputPath options attempt world =
      some (.ok manifest after)) :
    let paths : LibraryPaths := { root, shareId := descriptor.shareId }
    after.outputs outputPath = some input.content ∧
      readDescriptor prims after.disk paths = .ok descriptor ∧
      readSecret after.disk paths = .ok { shareId := descriptor.shareId, fileKey } ∧
      (∃ state, readState after.disk paths = .ok state ∧ state.mode = .completed) ∧
      (∃ progress, readProgress after.disk paths = .ok progress ∧
        progress.completedChunks = manifest.indices) ∧
      availableChunkIndexes prims after.disk paths descriptor = manifest.indices ∧
      manifestFromDescriptor descriptor = .ok manifest := by
  intro paths
  obtain ⟨chunkMetas, described, -, -, loads⟩ := loadShare_of_addStreaming added
  rw [← loadShare_congr stored] at loads
  simp only [fromPeerWith, connected] at finished
  split at finished
  · simp at finished
  · rename_i peer rest negotiated
    obtain ⟨shareId, loaded, chosen, found, same_manifest, same_key⟩ :=
      offer_of_servedBy correct agreement served negotiated
    obtain rfl : shareId = descriptor.shareId := by
      obtain named | ⟨over_library, named⟩ := chosen <;> grind
    obtain rfl := Except.ok.inj (found.symm.trans loads)
    have same_descriptor : descriptorFromManifest prims peer.manifest = descriptor := by
      rw [same_manifest, described]
    obtain rfl := (downloadFromPeer_ok finished).1
    obtain ⟨share, written, output, hash⟩ :=
      completedShare_of_downloadFromPeer withLibrary (show paths = _ by rw [same_descriptor])
        finished
    have same_content : written = input.content := by
      rw [same_manifest] at hash
      exact unique written (congrArg FileId.bytes hash)
    have increasing : peer.manifest.indices.Pairwise (· < ·) := by
      rw [Manifest.indices, ← descriptorFromManifest_chunks prims, same_descriptor]
      exact indices_increasing_of_addStreaming added
    obtain ⟨progress, read, ordered, members⟩ := share.progress
    have stored_descriptor := share.descriptor
    have available := share.available
    rw [same_descriptor] at stored_descriptor available
    refine ⟨by rw [output, same_content], stored_descriptor, ?_, share.mode,
      ⟨progress, read, completedChunks_eq ordered increasing members⟩, available, ?_⟩
    · rw [share.secret, same_key]
    · rw [← same_descriptor, manifestFromDescriptor_descriptorFromManifest]

/-! ## A file of one byte -/

/-- Seeding a file of one byte. -/
def seededOutcome : Option (EStateM.Result NetworkError Disk EtleDescriptor) :=
  addStreaming transparentPrimitives (oneReadInput [7]) sampleKey 1 ["library"] oneReadSchedule
    (fun _ => .absent)

/-- The descriptor that a successful seeding returns. -/
def descriptorOf : Option (EStateM.Result NetworkError Disk EtleDescriptor) → EtleDescriptor
  | some (.ok descriptor _) => descriptor
  | _ => descriptorFromManifest transparentPrimitives (oneByteManifest [])

/-- The library that a seeding leaves. -/
def diskOf : Option (EStateM.Result NetworkError Disk EtleDescriptor) → Disk
  | some outcome => outcome.final
  | none => fun _ => .absent

/-- The descriptor of the seeded file. -/
def seededDescriptor : EtleDescriptor := descriptorOf seededOutcome

/-- The library with the seeded file. -/
def seededDisk : Disk := diskOf seededOutcome

theorem eq_of_seeded {outcome : Option (EStateM.Result NetworkError Disk EtleDescriptor)}
    (succeeds : ∃ descriptor after, outcome = some (.ok descriptor after)) :
    outcome = some (.ok (descriptorOf outcome) (diskOf outcome)) := by
  obtain ⟨descriptor, after, rfl⟩ := succeeds
  rfl

theorem seededOutcome_eq : seededOutcome = some (.ok seededDescriptor seededDisk) :=
  eq_of_seeded (addStreaming_of_oneRead (oneReadInput [7]) [7] rfl sampleKey (by decide : 1 ≠ 0)
    ["library"] fun _ => .absent)

/-- A seeder of this library. -/
def sampleSeeder : Seeder where
  disk := seededDisk
  libraryRoot := ["library"]
  secret := Vector.replicate 32 2
  nonce := ⟨Vector.replicate 24 3⟩
  seederId := "seeder"
  authPsk := some ⟨Vector.replicate 32 5⟩
  share := none

theorem disk_sampleSeeder : sampleSeeder.disk = seededDisk := by rw [sampleSeeder]

/-- A client that asks for the share. -/
def askingOptions : DownloadFileOptions where
  peerId := "client"
  libraryRoot := some ["downloads"]
  resume := true
  requestedShareId := some seededDescriptor.shareId
  requestWindow := 1
  authPsk := some ⟨Vector.replicate 32 5⟩

/-- What the client sends in its negotiation with the seeder. -/
def askingFrames : List Frame :=
  negotiationRequests transparentPrimitives askingOptions
    (.derive transparentPrimitives (Vector.replicate 32 3) ⟨Vector.replicate 32 1⟩
      ⟨Vector.replicate 32 2⟩)

/-- The client's end of the connection. -/
def askingConnection : Connection where
  replies := sampleSeeder.sent transparentPrimitives askingFrames none
  sendLimit := none
  sent := []

/-- The client's attempt: one chunk is requested, received and stored. -/
def askingAttempt : Attempt where
  link := { connected := .ok askingConnection, secret := Vector.replicate 32 1 }
  windowEvents := [.request none,
    .receive (some (.raw 0 ([7] ++ List.replicate aeadTagLength 0))) 9, .persist false, .complete,
    .finish]
  decryption := { availableParallelism := some 1, events := fun _ => [] }

/-- The share that was seeded is downloaded, and can be seeded again. -/
theorem completedDownload_is_seeded_one_byte :
    ∃ manifest after,
      fromPeerWith transparentPrimitives ["out.bin"] askingOptions askingAttempt
        { disk := fun _ => .absent, outputs := fun _ => none } = some (.ok manifest after) ∧
      after.outputs ["out.bin"] = some [7] ∧
      availableChunkIndexes transparentPrimitives after.disk
        { root := ["downloads"], shareId := seededDescriptor.shareId } seededDescriptor =
          manifest.indices := by
  have succeeds : (fromPeerWith transparentPrimitives ["out.bin"] askingOptions askingAttempt
      { disk := fun _ => .absent, outputs := fun _ => none }).any (fun
        | .ok _ _ => true
        | .error _ _ => false) = true := by decide +kernel
  have sent : ((connectDownloadPeer transparentPrimitives (Vector.replicate 32 1)
      askingOptions).run askingConnection).final.sent = askingFrames := by decide +kernel
  obtain ⟨result, finished, succeeded⟩ := (Option.any_eq_true _ _).mp succeeds
  cases result with
  | error error after => cases succeeded
  | ok manifest after =>
      have served : ServedBy transparentPrimitives sampleSeeder (Vector.replicate 32 1)
          askingOptions askingConnection :=
        ⟨rfl, askingFrames, none, List.prefix_refl _, .inl (by rw [sent])⟩
      obtain ⟨output, -, -, -, -, available, -⟩ :=
        completedDownload_is_seeded transparentPrimitives aeadCorrect_transparent
          agreementCorrect_transparent (oneReadInput [7])
          (noSecondPreimage_transparent (by decide)) sampleKey 1 oneReadSchedule
          (fun _ => .absent) seededDisk seededDescriptor sampleSeeder seededOutcome_eq
          (by rw [disk_sampleSeeder]) ["out.bin"] askingOptions ["downloads"] rfl
          (.inr ⟨rfl, rfl⟩) askingAttempt askingConnection rfl served _ after manifest finished
      exact ⟨manifest, after, finished, output, available⟩

end Etle
