import Etle.State.OneByteShare
import Etle.Transfer.OfferCompletion

/-!
# Which share a download ends with

A successful call returns a manifest that one of the peers has sent and whose chunks reconstruct.
Nothing compares it with the requested share: a call that asks for one share succeeds with any
share that a peer offers instead.
-/

namespace Etle

open Std (TreeMap TreeSet)

/-- Some chunks reconstruct a file of this manifest, in memory or from a library. -/
def Completable (prims : Primitives) (manifest : Manifest) : Prop :=
  (∃ chunks fileKey written, decryptToBytes prims manifest chunks fileKey = .ok written) ∨
    ∃ disk paths fileKey schedule written,
      decryptLibraryChunksToFile prims disk paths manifest fileKey schedule =
        some (written, .ok ())

/-- Every manifest that a peer sends on a connection is an offered one. -/
def PeerLink.Offers (offered : Manifest → Prop) (link : PeerLink) : Prop :=
  ∀ connection manifest, link.connected = .ok connection →
    .encoded (.manifest manifest) ∈ connection.replies → offered manifest

section Results

variable {prims : Primitives} {outputPath : PathBuf} {options : DownloadFileOptions}
  {offered : Manifest → Prop} {manifest : Manifest} {world after : DownloadWorld}

/-- The manifest of a negotiation has been sent by the peer. -/
theorem offered_of_connectDownloadPeer {link : PeerLink} {connection rest : Connection}
    {peer : ConnectedDownloadPeer} (offers : link.Offers offered)
    (connected : link.connected = .ok connection)
    (negotiated : (connectDownloadPeer prims link.secret options).run connection =
      .ok peer rest) : offered peer.manifest := by
  obtain ⟨replies, -, described, passes⟩ := run_connectDownloadPeer_eq_ok.mp negotiated
  refine offers connection peer.manifest connected ?_
  rw [passes.replies, described]
  simp [NegotiationReplies.frames, NegotiationReplies.peer]

/-- A reconstruction from the library that succeeds returns its manifest. -/
theorem finishFromLibrary_ok {peer : Manifest × SymmetricKey} {schedule : DecryptSchedule}
    {outputs : PathBuf → Option Bytes} {session : LibrarySession}
    (finished : finishFromLibrary prims outputPath peer schedule outputs session =
      some (.ok manifest after)) : manifest = peer.1 ∧ Completable prims peer.1 := by
  unfold finishFromLibrary at finished
  split at finished
  · simp at finished
  · split at finished
    · cases finished
    · rename_i written outcome decrypted
      dsimp only at finished
      split at finished
      · simp at finished
      · split at finished
        · simp at finished
        · obtain ⟨rfl, -⟩ : peer.1 = manifest ∧ _ = after := by simpa using finished
          exact ⟨rfl, .inr ⟨_, _, _, _, _, decrypted⟩⟩

/-- A reconstruction from memory that succeeds returns its manifest. -/
theorem finishFromMemory_ok {peer : Manifest × SymmetricKey}
    {chunks : TreeMap UInt32 EncryptedChunk} {outputs : PathBuf → Option Bytes}
    {session : LibrarySession}
    (finished : finishFromMemory prims outputPath peer chunks outputs session =
      .ok manifest after) : manifest = peer.1 ∧ Completable prims peer.1 := by
  unfold finishFromMemory at finished
  split at finished
  · simp at finished
  · rename_i written decrypted
    obtain ⟨rfl, -⟩ : peer.1 = manifest ∧ _ = after := by simpa using finished
    exact ⟨rfl, .inl ⟨_, _, _, decrypted⟩⟩

/-- A download after a negotiation that succeeds returns the manifest of the negotiation. -/
theorem downloadFromPeer_ok {attempt : Attempt} {peer : ConnectedDownloadPeer}
    {connection : Connection}
    (finished : downloadFromPeer prims outputPath options attempt peer connection world =
      some (.ok manifest after)) : manifest = peer.manifest ∧ Completable prims peer.manifest := by
  unfold downloadFromPeer at finished
  dsimp only at finished
  split at finished
  · simp at finished
  · split at finished
    · simp at finished
    · split at finished
      · unfold finishDownload at finished
        split at finished
        · simp at finished
        · split at finished
          · exact finishFromLibrary_ok finished
          · exact finishFromMemory_ok (Option.some.inj finished)
      · simp at finished
      · cases finished

/-- A download from one peer returns what the peer offers. -/
theorem fromPeerWith_ok {attempt : Attempt} (offers : attempt.link.Offers offered)
    (finished : fromPeerWith prims outputPath options attempt world = some (.ok manifest after)) :
    offered manifest ∧ Completable prims manifest := by
  unfold fromPeerWith at finished
  split at finished
  · simp at finished
  · rename_i connection connected
    split at finished
    · simp at finished
    · rename_i peer rest negotiated
      obtain ⟨rfl, completable⟩ := downloadFromPeer_ok finished
      exact ⟨offered_of_connectDownloadPeer offers connected negotiated, completable⟩

/-- Trying peers one after another returns what one of them offers. -/
theorem tryPeers_ok {totalPeers number : Nat} {lastError : Option NetworkError}
    {attempts : List Attempt} (offers : ∀ attempt ∈ attempts, attempt.link.Offers offered)
    (finished : tryPeers prims outputPath options totalPeers number lastError attempts world =
      some (.ok manifest after)) : offered manifest ∧ Completable prims manifest := by
  induction attempts generalizing number lastError world with
  | nil => simp [tryPeers] at finished
  | cons attempt rest ih =>
      unfold tryPeers at finished
      dsimp only at finished
      split at finished
      · cases finished
      · rename_i result next succeeded
        obtain ⟨rfl, -⟩ : result = manifest ∧ next = after := by simpa using finished
        exact fromPeerWith_ok (offers attempt List.mem_cons_self) succeeded
      · exact ih (fun other member => offers other (List.mem_cons_of_mem _ member)) finished

/-- A download from the first peer that succeeds returns what this peer offers. -/
theorem fromPeers_ok {attempts : List Attempt}
    (offers : ∀ attempt ∈ attempts, attempt.link.Offers offered)
    (finished : fromPeers prims outputPath options attempts world = some (.ok manifest after)) :
    offered manifest ∧ Completable prims manifest := by
  unfold fromPeers at finished
  split at finished
  · simp at finished
  · exact tryPeers_ok offers finished

/-- What the preparation has gathered comes from the peers it has seen: they are peers of the call,
and the reference has been offered. -/
structure PreparedPeers.From (offered : Manifest → Prop) (peers : List ParallelPeer)
    (prepared : PreparedPeers) : Prop where
  known : ∀ found ∈ prepared.connected, found.1 ∈ peers
  reference : ∀ manifest fileKey, prepared.reference = some (manifest, fileKey) → offered manifest

/-- Preparing one more peer keeps this. -/
theorem PreparedPeers.From.preparePeer {peers : List ParallelPeer} {prepared : PreparedPeers}
    {peer : ParallelPeer} (gathered : prepared.From offered peers) (member : peer ∈ peers)
    (offers : peer.link.Offers offered) :
    (preparePeer prims options prepared peer).From offered peers := by
  obtain ⟨known, reference⟩ := gathered
  have added (answer : ConnectedDownloadPeer) :
      ∀ found ∈ prepared.connected ++ [(peer, answer)], found.1 ∈ peers := by
    intro found position
    obtain earlier | rfl : found ∈ prepared.connected ∨ found = (peer, answer) := by
      simpa using position
    · exact known found earlier
    · exact member
  unfold Etle.preparePeer
  split
  · exact ⟨known, reference⟩
  · rename_i connection connected
    split
    · exact ⟨known, reference⟩
    · rename_i answer rest negotiated
      split
      · refine ⟨added answer, ?_⟩
        rintro manifest fileKey ⟨⟩
        exact offered_of_connectDownloadPeer offers connected negotiated
      · rename_i first found
        rw [found] at reference
        split
        · exact ⟨added answer, by rwa [found]⟩
        · exact ⟨known, by rwa [found]⟩

theorem preparedPeers_from {peers considered : List ParallelPeer} {prepared : PreparedPeers}
    (gathered : prepared.From offered peers) (members : ∀ peer ∈ considered, peer ∈ peers)
    (offers : ∀ peer ∈ peers, peer.link.Offers offered) :
    (considered.foldl (preparePeer prims options) prepared).From offered peers := by
  induction considered generalizing prepared with
  | nil => exact gathered
  | cons peer rest ih =>
      have here := members peer List.mem_cons_self
      exact ih (gathered.preparePeer here (offers peer here))
        fun other member => members other (List.mem_cons_of_mem _ member)

/-- The workers end with the reference, or with what the sequential fallback finds. -/
theorem runParallelWorkers_ok {peers : List ParallelPeer}
    {connected : List (ParallelPeer × ConnectedDownloadPeer)} {schedule : ParallelSchedule}
    {peer : Manifest × SymmetricKey} {completed : TreeSet UInt32}
    {outputs : PathBuf → Option Bytes} {session : LibrarySession}
    (offers : ∀ attempt ∈ peers.map ParallelPeer.attempt, attempt.link.Offers offered)
    (reference : offered peer.1)
    (finished : runParallelWorkers prims outputPath options peers connected schedule peer completed
      outputs session = some (.ok manifest after)) :
    offered manifest ∧ Completable prims manifest := by
  unfold runParallelWorkers at finished
  dsimp only at finished
  split at finished
  · cases finished
  · split at finished
    · split at finished
      · exact fromPeers_ok offers finished
      · obtain ⟨rfl, completable⟩ := finishFromLibrary_ok finished
        exact ⟨reference, completable⟩
    · cases finished

/-- A parallel download returns what one of its peers offers. -/
theorem fromPeersParallel_ok {parallelism : Nat} {peers : List ParallelPeer}
    {schedule : ParallelSchedule}
    (offers : ∀ peer ∈ peers, peer.link.Offers offered ∧ peer.attempt.link.Offers offered)
    (finished : fromPeersParallel prims outputPath options parallelism peers schedule world =
      some (.ok manifest after)) : offered manifest ∧ Completable prims manifest := by
  have attempts : ∀ attempt ∈ peers.map ParallelPeer.attempt, attempt.link.Offers offered := by
    intro attempt member
    obtain ⟨peer, position, rfl⟩ := List.mem_map.mp member
    exact (offers peer position).2
  unfold fromPeersParallel at finished
  split at finished
  · simp at finished
  · split at finished
    · exact fromPeers_ok attempts finished
    · dsimp only at finished
      have gathered : ((peers.take (min parallelism peers.length)).foldl
          (preparePeer prims options)
          { connected := [], reference := none, lastError := none }).From offered peers :=
        preparedPeers_from ⟨by simp, by simp⟩ (fun peer member => List.mem_of_mem_take member)
          fun peer member => (offers peer member).1
      split at finished
      · simp at finished
      · simp at finished
      · rename_i first peer answer found connected
        refine fromPeers_ok ?_ finished
        intro attempt member
        obtain rfl : attempt = peer.attempt := by simpa using member
        exact (offers peer (gathered.known (peer, answer) (by simp [connected]))).2
      · rename_i first fileKey found _ _
        have reference := gathered.reference first fileKey found
        split at finished
        · simp at finished
        · split at finished
          · obtain ⟨rfl, completable⟩ := finishFromLibrary_ok finished
            exact ⟨reference, completable⟩
          · exact runParallelWorkers_ok attempts reference finished

end Results

/-- Every call that asks for a share and whose peers only send offered manifests ends, if it
succeeds, with a manifest of this share. -/
structure BindsRequestedShare (prims : Primitives) (shareId : ShareId)
    (offered : Manifest → Prop) : Prop where
  fromPeerWith : ∀ outputPath options attempt world manifest after,
    options.requestedShareId = some shareId → attempt.link.Offers offered →
    fromPeerWith prims outputPath options attempt world = some (.ok manifest after) →
    (descriptorFromManifest prims manifest).shareId = shareId
  fromPeers : ∀ outputPath options attempts world manifest after,
    options.requestedShareId = some shareId →
    (∀ attempt ∈ attempts, attempt.link.Offers offered) →
    fromPeers prims outputPath options attempts world = some (.ok manifest after) →
    (descriptorFromManifest prims manifest).shareId = shareId
  fromPeersParallel : ∀ outputPath options parallelism peers schedule world manifest after,
    options.requestedShareId = some shareId →
    (∀ peer ∈ peers, peer.link.Offers offered ∧ peer.attempt.link.Offers offered) →
    fromPeersParallel prims outputPath options parallelism peers schedule world =
      some (.ok manifest after) →
    (descriptorFromManifest prims manifest).shareId = shareId

/-- An offering peer sends no other manifest. -/
theorem offers_offeringLink {prims : Primitives} {options : DownloadFileOptions} {secret : Bytes32}
    {publicKey : PublicKeyBytes} {manifest : Manifest} {wrapped : WrappedFileKey}
    {chunks : List UInt32} {offered : Manifest → Prop} (offer : offered manifest) :
    (offeringLink prims options secret publicKey manifest wrapped chunks).Offers offered := by
  rintro connection other connected sent
  obtain rfl := Except.ok.inj connected
  have same : other = manifest := by
    cases psk : options.authPsk <;>
      simpa [NegotiationReplies.frames, offeringReplies, SessionKeys.proofs, psk] using sent
  rw [same]
  exact offer

/-- A completable manifest is completed by a peer that offers it, whatever share is requested. -/
theorem fromPeerWith_of_completable {prims : Primitives} {manifest : Manifest}
    (correct : prims.AeadCorrect)
    (wraps : ∀ sessionKey fileId fileKey, ∃ nonce wrapped,
      wrapFileKey prims sessionKey fileId fileKey nonce = .ok wrapped)
    (usable : ∃ secret publicKey sharedSecret,
      diffieHellman prims secret publicKey = .ok sharedSecret)
    (completable : Completable prims manifest) (requested : ShareId) {offered : Manifest → Prop}
    (offer : offered manifest) :
    ∃ outputPath options attempt world after, options.requestedShareId = some requested ∧
      attempt.link.Offers offered ∧
      fromPeerWith prims outputPath options attempt world = some (.ok manifest after) := by
  obtain ⟨secret, publicKey, sharedSecret, agreed⟩ := usable
  have opens (fileKey : SymmetricKey) : ∃ wrapped,
      unwrapFileKey prims (deriveSessionKeyWithTranscript prims sharedSecret
        (prims.x25519Public secret) publicKey) manifest.fileId wrapped = .ok fileKey := by
    obtain ⟨nonce, wrapped, wrap⟩ := wraps (deriveSessionKeyWithTranscript prims sharedSecret
      (prims.x25519Public secret) publicKey) manifest.fileId fileKey
    exact ⟨wrapped, unwrapFileKey_of_wrapFileKey correct wrap⟩
  obtain ⟨content, fileKey, written, decrypted⟩ |
    ⟨disk, paths, fileKey, schedule, written, decrypted⟩ := completable
  · obtain ⟨wrapped, unwraps⟩ := opens fileKey
    let options : DownloadFileOptions :=
      ⟨"downloader", none, true, some requested, 1, none⟩
    obtain ⟨connection, rest, connected, negotiated, -⟩ :=
      run_connectDownloadPeer_offeringLink options manifest.indices agreed unwraps
    obtain ⟨events, world, after, finished⟩ := @downloadFromPeer_of_memory prims [] options
      ((offeringReplies prims secret publicKey manifest wrapped manifest.indices).peer fileKey) rest
      content written rfl rfl
      (fun index member => TreeSet.mem_foldl_insert.mpr (.inr member)) decrypted
      (offeringLink prims options secret publicKey manifest wrapped manifest.indices)
      ⟨none, fun _ => []⟩
    exact ⟨[], options, _, world, after, rfl, offers_offeringLink offer,
      (fromPeerWith_of_negotiated ⟨_, events, none, fun _ => []⟩ connected negotiated world).trans
        finished⟩
  · obtain ⟨wrapped, unwraps⟩ := opens fileKey
    let options : DownloadFileOptions :=
      ⟨"downloader", some [], true, some requested, 1, none⟩
    obtain ⟨connection, rest, connected, negotiated, open_ended⟩ :=
      run_connectDownloadPeer_offeringLink options [] agreed unwraps
    obtain ⟨events, after, -, finished⟩ := @downloadFromPeer_of_library prims [] options
      ((offeringReplies prims secret publicKey manifest wrapped []).peer fileKey) rest
      disk paths schedule written [] rfl rfl open_ended decrypted
      (offeringLink prims options secret publicKey manifest wrapped [])
    exact ⟨[], options, _, _, after, rfl, offers_offeringLink offer,
      (fromPeerWith_of_negotiated ⟨_, events, schedule⟩ connected negotiated _).trans finished⟩

/-- A download is bound to the requested share exactly when no peer offers a completable manifest of
another share. -/
theorem requestedShare_bound_iff {prims : Primitives} (correct : prims.AeadCorrect)
    (wraps : ∀ sessionKey fileId fileKey, ∃ nonce wrapped,
      wrapFileKey prims sessionKey fileId fileKey nonce = .ok wrapped)
    (usable : ∃ secret publicKey sharedSecret,
      diffieHellman prims secret publicKey = .ok sharedSecret)
    (shareId : ShareId) (offered : Manifest → Prop) :
    BindsRequestedShare prims shareId offered ↔
      ∀ manifest, offered manifest → Completable prims manifest →
        (descriptorFromManifest prims manifest).shareId = shareId := by
  constructor
  · intro binds manifest offer completable
    obtain ⟨outputPath, options, attempt, world, after, requested, offers, finished⟩ :=
      fromPeerWith_of_completable correct wraps usable completable shareId offer
    exact binds.fromPeerWith outputPath options attempt world manifest after requested offers
      finished
  · intro same
    refine ⟨?_, ?_, ?_⟩
    · intro _ _ _ _ manifest _ _ offers finished
      obtain ⟨offer, completable⟩ := fromPeerWith_ok offers finished
      exact same manifest offer completable
    · intro _ _ _ _ manifest _ _ offers finished
      obtain ⟨offer, completable⟩ := fromPeers_ok offers finished
      exact same manifest offer completable
    · intro _ _ _ _ _ _ manifest _ _ offers finished
      obtain ⟨offer, completable⟩ := fromPeersParallel_ok offers finished
      exact same manifest offer completable

theorem wraps_transparent (sessionKey : SymmetricKey) (fileId : FileId) (fileKey : SymmetricKey) :
    ∃ nonce wrapped, wrapFileKey transparentPrimitives sessionKey fileId fileKey nonce =
      .ok wrapped :=
  ⟨⟨Vector.replicate 24 0⟩, _, rfl⟩

theorem usable_transparent : ∃ secret publicKey sharedSecret,
    diffieHellman transparentPrimitives secret publicKey = .ok sharedSecret :=
  ⟨Vector.replicate 32 1, ⟨Vector.replicate 32 1⟩, Vector.replicate 32 2, by decide +kernel⟩

/-- Peers that only offer the requested share are safe. -/
theorem requestedShare_bound_when_offered_alone :
    BindsRequestedShare transparentPrimitives
      (descriptorFromManifest transparentPrimitives (oneByteManifest [0])).shareId
      (fun manifest => manifest = oneByteManifest [0]) := by
  refine (requestedShare_bound_iff aeadCorrect_transparent wraps_transparent usable_transparent _
    _).mpr ?_
  rintro manifest rfl -
  rfl

/-- A download of the share of chunk 1. -/
def misdirectedOptions : DownloadFileOptions where
  peerId := "downloader"
  libraryRoot := none
  resume := false
  requestedShareId :=
    some (descriptorFromManifest transparentPrimitives (oneByteManifest [1])).shareId
  requestWindow := 1
  authPsk := none

/-- A peer that answers with the share of chunk 0. -/
def misdirectedAttempt : Attempt where
  link := offeringLink transparentPrimitives misdirectedOptions (Vector.replicate 32 1)
    ⟨Vector.replicate 32 1⟩ (oneByteManifest [0])
    { nonce := ⟨Vector.replicate 24 0⟩, data := List.replicate 48 0 } [0]
  windowEvents := [.request none, .receive (some (.raw 0 (oneByteChunk 0))) 0, .persist false,
    .complete, .finish]
  decryption := { availableParallelism := none, events := fun _ => [] }

/-- The call succeeds with the content of the other share. -/
theorem requestedShare_replaced_by_peer :
    ∃ after, fromPeerWith transparentPrimitives ["sample.bin"] misdirectedOptions
        misdirectedAttempt { disk := fun _ => .absent, outputs := fun _ => none } =
      some (.ok (oneByteManifest [0]) after) ∧
    after.outputs ["sample.bin"] = some [0] ∧
    misdirectedOptions.requestedShareId ≠
      some (descriptorFromManifest transparentPrimitives (oneByteManifest [0])).shareId := by
  have outcome : (fromPeerWith transparentPrimitives ["sample.bin"] misdirectedOptions
      misdirectedAttempt { disk := fun _ => .absent, outputs := fun _ => none }).bind (fun
        | .ok manifest after => some (manifest, after.outputs ["sample.bin"])
        | .error _ _ => none) = some (oneByteManifest [0], some [0]) := by decide +kernel
  obtain ⟨result, ran, found⟩ := Option.bind_eq_some_iff.mp outcome
  split at found
  · rename_i manifest after
    obtain ⟨rfl, written⟩ : manifest = oneByteManifest [0] ∧ _ := by simpa using found
    exact ⟨after, ran, written, by decide +kernel⟩
  · cases found

end Etle
