import Etle.State.OneByteShare
import Etle.Transfer.Offering

/-!
# What a serving session gives out

The chunk loop takes one message of the client after another.  Whatever the client sends, a chunk
leaves the session only if it was advertised, with the bytes that were verified before; a request
for any other index gets one error; and the loop comes to a normal end only when everything is
advertised or the client is gone.
-/

namespace Etle

open Std (TreeSet)

/-! ## Turns of the chunk loop -/

/-- Answer one message, and return the frames sent and the chunks served or known after it. -/
def serveTurn (share : ServedShare) (servedOrKnown : TreeSet UInt32) (message : WireMessage) :
    OnStream (List Frame × TreeSet UInt32) := do
  let (answers, servedOrKnown) ← EStateM.liftExcept id (serveMessage share servedOrKnown message)
  sendFrames answers
  return (answers, servedOrKnown)

/-- A message that the loop has taken: what was served or known before it, the connection it came
on, and the answer. -/
structure ServeTurn where
  message : WireMessage
  servedOrKnown : TreeSet UInt32
  connection : Connection
  answer : Except NetworkError (List Frame × TreeSet UInt32)

/-- The frames sent in a turn. -/
def ServeTurn.sent (turn : ServeTurn) : List Frame :=
  match turn.answer with
  | .ok (answers, _) => answers
  | .error _ => []

/-- The turns that the chunk loop takes. -/
def serveTurns (share : ServedShare) :
    List Frame → TreeSet UInt32 → Connection → List ServeTurn
  | frames, servedOrKnown, connection =>
      if servedOrKnown.size < share.descriptor.chunks.length then
        match frames with
        | [] => []
        | frame :: rest =>
            match receiveFrame [frame] with
            | .error _ => []
            | .ok (message, _) =>
                match (serveTurn share servedOrKnown message).run
                    { connection with replies := rest } with
                | .error error _ =>
                    [{ message, servedOrKnown, connection, answer := .error error }]
                | .ok answer next =>
                    { message, servedOrKnown, connection, answer := .ok answer } ::
                      serveTurns share rest answer.2 next
      else
        []
  termination_by structural frames => frames

/-- The client has closed its end. -/
def peerClosed (frames : List Frame) : Prop :=
  ∃ error, receiveFrame frames = .error error ∧ isPeerClosedProtocolError error = true

/-- The connection has refused the answer. -/
def ServeTurn.Refused (turn : ServeTurn) : Prop :=
  ∃ error, turn.connection.sendLimit = some (0, error) ∧ turn.answer = .error (.protocol error)

/-- A chunk file has the size of the first entry of its index and fits a frame. -/
def ServedShare.CanSend (share : ServedShare) (index : UInt32) : Prop :=
  ∃ entry data, share.descriptor.chunks.find? (fun entry => entry.index == index) = some entry ∧
    (share.disk share.paths).chunks (.chunk index) = some data ∧
    UInt64.ofNat data.length = entry.encryptedSize ∧
    rawChunkHeaderSize + data.length ≤ maxFrameSize

/-- The bytes have the size and the hash that an entry of this index gives. -/
def DescribedBytes (prims : Primitives) (descriptor : EtleDescriptor) (index : UInt32)
    (data : Bytes) : Prop :=
  ∃ entry ∈ descriptor.chunks, entry.index = index ∧
    UInt64.ofNat data.length = entry.encryptedSize ∧ hashChunk prims data = entry.blake3Hash

/-- How a turn has to be answered, for the given advertised indices. -/
structure ServeTurn.Proper (prims : Primitives) (share : ServedShare) (advertised : List UInt32)
    (turn : ServeTurn) : Prop where
  known : ∀ index ∈ turn.servedOrKnown, index ∈ advertised
  knownAfter : ∀ answers servedOrKnown, turn.answer = .ok (answers, servedOrKnown) →
    ∀ index ∈ servedOrKnown, index ∈ advertised
  requested : ∀ index ∈ advertised, turn.message = .requestChunk index →
    (∃ data, turn.sent = [.raw index data] ∧
      DescribedBytes prims share.descriptor index data) ∨
      (¬share.CanSend index ∧ ∃ error, turn.answer = .error error) ∨ turn.Refused
  unavailable : ∀ index ∉ advertised, turn.message = .requestChunk index →
    turn.sent = [.encoded (.error (unavailableMessage index))] ∨ turn.Refused
  silent : (∀ index, turn.message ≠ .requestChunk index) → turn.sent = []

section

variable {share : ServedShare} {servedOrKnown : TreeSet UInt32} {connection : Connection}

/-- The loop is its first turn and the loop after it. -/
theorem run_serveChunks_cons {frame : Frame} {rest : List Frame} {message : WireMessage}
    {after : List Frame} (more : servedOrKnown.size < share.descriptor.chunks.length)
    (received : receiveFrame [frame] = .ok (message, after)) :
    (serveChunks share (frame :: rest) servedOrKnown).run connection =
      match (serveTurn share servedOrKnown message).run { connection with replies := rest } with
      | .error error next => .error error next
      | .ok answer next => (serveChunks share rest answer.2).run next := by
  rw [serveChunks, if_pos more]
  simp only [received]
  cases answered : serveMessage share servedOrKnown message with
  | error error => simp [serveTurn, answered]
  | ok answer =>
      obtain ⟨answers, known⟩ := answer
      simp only [serveTurn, answered, EStateM.run_bind, EStateM.run_modify,
        EStateM.run_liftExcept_ok]
      cases (sendFrames answers).run { connection with replies := rest } <;> rfl

/-- How a message can be answered. -/
inductive Answer (share : ServedShare) (servedOrKnown : TreeSet UInt32) :
    WireMessage → Except NetworkError (List Frame × TreeSet UInt32) → Prop
  | noted (chunks : List UInt32) :
      Answer share servedOrKnown (.have chunks)
        (.ok ([], noteKnown share.available servedOrKnown chunks))
  | unavailable {index : UInt32} (lacks : index ∉ share.available) :
      Answer share servedOrKnown (.requestChunk index)
        (.ok ([.encoded (.error (unavailableMessage index))], servedOrKnown))
  | served {index : UInt32} {data : Bytes} (has : index ∈ share.available)
      (stored : (share.disk share.paths).chunks (.chunk index) = some data) :
      Answer share servedOrKnown (.requestChunk index)
        (.ok ([.raw index data], servedOrKnown.insert index))
  | unsendable {index : UInt32} {error : NetworkError} (has : index ∈ share.available)
      (cannot : ¬share.CanSend index) :
      Answer share servedOrKnown (.requestChunk index) (.error error)
  | unexpected {message : WireMessage} {error : NetworkError}
      (other : ∀ index, message ≠ .requestChunk index) :
      Answer share servedOrKnown message (.error error)

/-- Every message is answered in one of these ways. -/
theorem answer_serveMessage (share : ServedShare) (servedOrKnown : TreeSet UInt32)
    (message : WireMessage) :
    Answer share servedOrKnown message (serveMessage share servedOrKnown message) := by
  cases message with
  | «have» chunks => exact .noted chunks
  | requestChunk index =>
      by_cases has : index ∈ share.available
      · simp only [serveMessage, TreeSet.contains_iff_mem.mpr has, Bool.not_true,
          Bool.false_eq_true, if_false]
        cases found : share.descriptor.chunks.find? fun entry => entry.index == index with
        | none =>
            refine .unsendable has ?_
            rintro ⟨entry, data, listed, -⟩
            exact absurd (found.symm.trans listed) (by simp)
        | some entry =>
            dsimp only
            cases sent : sendChunkFile share.disk share.paths index entry.encryptedSize with
            | error error =>
                refine .unsendable has ?_
                rintro ⟨other, data, listed, stored, size, fits⟩
                obtain rfl := Option.some.inj (found.symm.trans listed)
                have sends := sendChunkFile_eq_ok.mpr ⟨data, stored, size, fits, rfl⟩
                exact absurd (sent.symm.trans sends) (by simp)
            | ok frame =>
                obtain ⟨data, stored, -, -, rfl⟩ := sendChunkFile_eq_ok.mp sent
                exact .served has stored
      · simp only [serveMessage, TreeSet.contains_eq_false_of_not_mem has, Bool.not_false, if_true]
        exact .unavailable has
  | hello | capabilities | keyExchange | authProof | requestManifest | requestShare | manifest
  | wrappedFileKey | chunk | error => exact .unexpected (by simp)

/-- A turn that answers with one frame sends it or is refused. -/
theorem run_serveTurn_one {message : WireMessage} {frame : Frame} {known : TreeSet UInt32}
    (answered : serveMessage share servedOrKnown message = .ok ([frame], known)) :
    (∃ next, (serveTurn share servedOrKnown message).run connection = .ok ([frame], known) next ∧
      next.sent = connection.sent ++ [frame]) ∨
      ∃ error, connection.sendLimit = some (0, error) ∧
        (serveTurn share servedOrKnown message).run connection =
          .error (.protocol error) connection := by
  obtain ⟨replies, sendLimit, sent⟩ := connection
  unfold serveTurn
  rw [answered]
  match sendLimit with
  | none => exact .inl ⟨_, rfl, rfl⟩
  | some (0, error) => exact .inr ⟨error, rfl, rfl⟩
  | some (left + 1, error) => exact .inl ⟨_, rfl, rfl⟩

/-- A turn that answers with nothing leaves the connection alone. -/
theorem run_serveTurn_nil {message : WireMessage} {known : TreeSet UInt32}
    (answered : serveMessage share servedOrKnown message = .ok ([], known)) :
    (serveTurn share servedOrKnown message).run connection = .ok ([], known) connection := by
  unfold serveTurn
  rw [answered]
  rfl

theorem run_serveTurn_error {message : WireMessage} {error : NetworkError}
    (answered : serveMessage share servedOrKnown message = .error error) :
    (serveTurn share servedOrKnown message).run connection = .error error connection := by
  unfold serveTurn
  rw [answered]
  rfl

/-- What a turn sends and how it ends. -/
inductive TurnEnd (share : ServedShare) (servedOrKnown : TreeSet UInt32) (message : WireMessage)
    (connection : Connection) : EStateM.Result NetworkError Connection
      (List Frame × TreeSet UInt32) → Prop
  | answered {answer : List Frame × TreeSet UInt32} {next : Connection}
      (same : Answer share servedOrKnown message (.ok answer))
      (sent : next.sent = connection.sent ++ answer.1) :
      TurnEnd share servedOrKnown message connection (.ok answer next)
  | failed {error : NetworkError} (same : Answer share servedOrKnown message (.error error)) :
      TurnEnd share servedOrKnown message connection (.error error connection)
  | refused {error : ProtocolError} (limit : connection.sendLimit = some (0, error)) :
      TurnEnd share servedOrKnown message connection (.error (.protocol error) connection)

theorem turnEnd_serveTurn (share : ServedShare) (servedOrKnown : TreeSet UInt32)
    (message : WireMessage) (connection : Connection) :
    TurnEnd share servedOrKnown message connection
      ((serveTurn share servedOrKnown message).run connection) := by
  have answer := answer_serveMessage share servedOrKnown message
  cases answered : serveMessage share servedOrKnown message with
  | error error =>
      rw [run_serveTurn_error answered]
      exact .failed (answered ▸ answer)
  | ok reply =>
      obtain ⟨frames, known⟩ := reply
      rw [answered] at answer
      have short : frames = [] ∨ ∃ frame, frames = [frame] := by
        cases answer with
        | noted => exact .inl rfl
        | unavailable | served => exact .inr ⟨_, rfl⟩
      obtain rfl | ⟨frame, rfl⟩ := short
      · rw [run_serveTurn_nil answered]
        exact .answered answer (by simp)
      · obtain ⟨next, run, sent⟩ | ⟨error, limit, run⟩ :=
          @run_serveTurn_one _ _ connection _ _ _ answered
        · rw [run]
          exact .answered answer sent
        · rw [run]
          exact .refused limit

variable {frame : Frame} {rest : List Frame} {message : WireMessage}

theorem serveTurns_nil : serveTurns share [] servedOrKnown connection = [] := by
  rw [serveTurns]
  split <;> rfl

theorem serveTurns_cons (more : servedOrKnown.size < share.descriptor.chunks.length)
    {after : List Frame} (received : receiveFrame [frame] = .ok (message, after)) :
    serveTurns share (frame :: rest) servedOrKnown connection =
      match (serveTurn share servedOrKnown message).run { connection with replies := rest } with
      | .error error _ => [{ message, servedOrKnown, connection, answer := .error error }]
      | .ok answer next =>
          { message, servedOrKnown, connection, answer := .ok answer } ::
            serveTurns share rest answer.2 next := by
  rw [serveTurns, if_pos more]
  simp only [received]

/-- The loop takes no turn when everything is served or known. -/
theorem serveTurns_of_done (done : ¬servedOrKnown.size < share.descriptor.chunks.length)
    (frames : List Frame) : serveTurns share frames servedOrKnown connection = [] := by
  cases frames <;> rw [serveTurns, if_neg done]

theorem run_serveChunks_of_done (done : ¬servedOrKnown.size < share.descriptor.chunks.length)
    (frames : List Frame) :
    (serveChunks share frames servedOrKnown).run connection = .ok () connection := by
  cases frames <;> rw [serveChunks, if_neg done] <;> rfl

/-- The loop takes no turn for a frame it cannot read. -/
theorem serveTurns_of_unreadable {error : ProtocolError}
    (unreadable : receiveFrame [frame] = .error error) :
    serveTurns share (frame :: rest) servedOrKnown connection = [] := by
  rw [serveTurns]
  split
  · simp only [unreadable]
  · rfl

theorem run_serveChunks_of_unreadable
    (more : servedOrKnown.size < share.descriptor.chunks.length) {error : ProtocolError}
    (unreadable : receiveFrame [frame] = .error error) :
    (serveChunks share (frame :: rest) servedOrKnown).run connection =
      if isPeerClosedProtocolError error then .ok () connection
      else .error (.protocol error) connection := by
  rw [serveChunks, if_pos more]
  simp only [unreadable]
  split <;> rfl

/-- An induction along the turns of the loop: it is over, or the client is gone or unreadable, or it
takes one more turn. -/
theorem serveTurns_induction (share : ServedShare)
    {property : List Frame → TreeSet UInt32 → Connection → Prop}
    (done : ∀ frames servedOrKnown connection,
      ¬servedOrKnown.size < share.descriptor.chunks.length →
      property frames servedOrKnown connection)
    (gone : ∀ servedOrKnown connection, property [] servedOrKnown connection)
    (unreadable : ∀ frame rest servedOrKnown connection error,
      receiveFrame [frame] = .error error → property (frame :: rest) servedOrKnown connection)
    (turn : ∀ frame rest servedOrKnown connection message after,
      servedOrKnown.size < share.descriptor.chunks.length →
      receiveFrame [frame] = .ok (message, after) →
      (∀ answer next, (serveTurn share servedOrKnown message).run
        { connection with replies := rest } = .ok answer next → property rest answer.2 next) →
      property (frame :: rest) servedOrKnown connection)
    (frames : List Frame) (servedOrKnown : TreeSet UInt32) (connection : Connection) :
    property frames servedOrKnown connection := by
  induction frames generalizing servedOrKnown connection with
  | nil => exact gone servedOrKnown connection
  | cons frame rest ih =>
      by_cases more : servedOrKnown.size < share.descriptor.chunks.length
      · cases received : receiveFrame [frame] with
        | error error => exact unreadable frame rest servedOrKnown connection error received
        | ok found =>
            exact turn frame rest servedOrKnown connection found.1 found.2 more received
              fun answer next _ => ih answer.2 next
      · exact done (frame :: rest) servedOrKnown connection more

/-- The loop sends what its turns send. -/
theorem sent_serveChunks (share : ServedShare) (frames : List Frame)
    (servedOrKnown : TreeSet UInt32) (connection : Connection) :
    ((serveChunks share frames servedOrKnown).run connection).final.sent =
      connection.sent ++
        (serveTurns share frames servedOrKnown connection).flatMap ServeTurn.sent := by
  induction frames, servedOrKnown, connection using serveTurns_induction share with
  | done frames servedOrKnown connection done =>
      simp [run_serveChunks_of_done done, serveTurns_of_done done]
  | gone servedOrKnown connection =>
      rw [serveTurns_nil, serveChunks]
      split <;> simp
  | unreadable frame rest servedOrKnown connection error unreadable =>
      rw [serveTurns_of_unreadable unreadable]
      by_cases more : servedOrKnown.size < share.descriptor.chunks.length
      · rw [run_serveChunks_of_unreadable more unreadable]
        split <;> simp
      · simp [run_serveChunks_of_done more]
  | turn frame rest servedOrKnown connection message after more received ih =>
      rw [run_serveChunks_cons more received, serveTurns_cons more received]
      have turned := turnEnd_serveTurn share servedOrKnown message
        { connection with replies := rest }
      cases run : (serveTurn share servedOrKnown message).run
          { connection with replies := rest } with
      | error error next =>
          rw [run] at turned
          cases turned <;> simp [ServeTurn.sent]
      | ok answer next =>
          rw [run] at turned
          cases turned with
          | answered same sent =>
              simp only [List.flatMap_cons, ih answer next run, sent, ServeTurn.sent,
                List.append_assoc]

/-- The answers of the turns keep what is served or known among the available chunks. -/
theorem available_of_answer {answer : List Frame × TreeSet UInt32}
    (known : ∀ index ∈ servedOrKnown, index ∈ share.available)
    (answered : Answer share servedOrKnown message (.ok answer)) :
    ∀ index ∈ answer.2, index ∈ share.available := by
  cases answered with
  | noted chunks =>
      intro index member
      obtain old | ⟨-, has⟩ := mem_noteKnown.mp member
      · exact known index old
      · exact has
  | unavailable => exact known
  | served has =>
      intro other member
      rw [TreeSet.mem_insert, Std.LawfulEqCmp.compare_eq_iff_eq] at member
      obtain rfl | old := member
      · exact has
      · exact known other old

/-- Every turn starts with available chunks only, and its answer is what it came to. -/
theorem turnEnd_of_mem_serveTurns {turn : ServeTurn} {frames : List Frame}
    (known : ∀ index ∈ servedOrKnown, index ∈ share.available)
    (member : turn ∈ serveTurns share frames servedOrKnown connection) :
    (∀ index ∈ turn.servedOrKnown, index ∈ share.available) ∧
      ((∃ next, turn.answer = .ok next ∧
          Answer share turn.servedOrKnown turn.message (.ok next)) ∨
        (∃ error, turn.answer = .error error ∧
          Answer share turn.servedOrKnown turn.message (.error error)) ∨ turn.Refused) := by
  induction frames, servedOrKnown, connection using serveTurns_induction share with
  | done frames servedOrKnown connection done => simp [serveTurns_of_done done] at member
  | gone => simp [serveTurns_nil] at member
  | unreadable frame rest servedOrKnown connection error unreadable =>
      simp [serveTurns_of_unreadable unreadable] at member
  | turn frame rest servedOrKnown connection message after more received ih =>
      rw [serveTurns_cons more received] at member
      have turned := turnEnd_serveTurn share servedOrKnown message
        { connection with replies := rest }
      cases run : (serveTurn share servedOrKnown message).run
          { connection with replies := rest } with
      | error error next =>
          rw [run] at member turned
          obtain rfl := List.mem_singleton.mp member
          refine ⟨known, .inr ?_⟩
          cases turned with
          | failed same => exact .inl ⟨error, rfl, same⟩
          | refused limit => exact .inr ⟨_, limit, rfl⟩
      | ok answer next =>
          rw [run] at member turned
          cases turned with
          | answered same sent =>
              obtain rfl | later := List.mem_cons.mp member
              · exact ⟨known, .inl ⟨answer, rfl, same⟩⟩
              · exact ih answer next run (available_of_answer known same) later

/-- A turn that fails ends the loop with its error. -/
theorem run_serveChunks_of_failed_turn {turn : ServeTurn} {frames : List Frame}
    {error : NetworkError} (failed : turn.answer = .error error)
    (member : turn ∈ serveTurns share frames servedOrKnown connection) :
    ∃ final, (serveChunks share frames servedOrKnown).run connection = .error error final := by
  induction frames, servedOrKnown, connection using serveTurns_induction share with
  | done frames servedOrKnown connection done => simp [serveTurns_of_done done] at member
  | gone => simp [serveTurns_nil] at member
  | unreadable frame rest servedOrKnown connection other unreadable =>
      simp [serveTurns_of_unreadable unreadable] at member
  | turn frame rest servedOrKnown connection message after more received ih =>
      rw [serveTurns_cons more received] at member
      rw [run_serveChunks_cons more received]
      cases run : (serveTurn share servedOrKnown message).run
          { connection with replies := rest } with
      | error cause next =>
          rw [run] at member
          obtain rfl := List.mem_singleton.mp member
          obtain rfl := Except.error.inj failed
          exact ⟨next, rfl⟩
      | ok answer next =>
          rw [run] at member
          obtain rfl | later := List.mem_cons.mp member
          · cases failed
          · exact ih answer next run later

theorem receiveFrame_eq_error {error : ProtocolError}
    (unreadable : receiveFrame [frame] = .error error) (rest : List Frame) :
    receiveFrame (frame :: rest) = .error error := by
  cases frame with
  | encoded | raw => simp [receiveFrame] at unreadable
  | cut | invalid => exact unreadable

/-- When as many chunks are served or known as there are entries, all of them are available. -/
theorem available_of_done
    (listed : ∀ index ∈ share.available, index ∈ share.descriptor.chunks.map ChunkMeta.index)
    (known : ∀ index ∈ servedOrKnown, index ∈ share.available)
    (done : ¬servedOrKnown.size < share.descriptor.chunks.length) :
    ∀ entry ∈ share.descriptor.chunks, entry.index ∈ share.available := by
  intro entry member
  apply known
  apply TreeSet.mem_of_size_eq_length (fun index here => listed index (known index here))
  · simpa using done
  · exact List.mem_map_of_mem member

/-- The loop ends normally only when every chunk is available or the client is gone. -/
theorem available_or_peerClosed {frames : List Frame} {final : Connection}
    (listed : ∀ index ∈ share.available, index ∈ share.descriptor.chunks.map ChunkMeta.index)
    (known : ∀ index ∈ servedOrKnown, index ∈ share.available)
    (ended : (serveChunks share frames servedOrKnown).run connection = .ok () final) :
    (∀ entry ∈ share.descriptor.chunks, entry.index ∈ share.available) ∨
      peerClosed (frames.drop (serveTurns share frames servedOrKnown connection).length) := by
  induction frames, servedOrKnown, connection using serveTurns_induction share with
  | done frames servedOrKnown connection done => exact .inl (available_of_done listed known done)
  | gone => exact .inr ⟨.io .unexpectedEof, by rw [List.drop_nil]; rfl, rfl⟩
  | unreadable frame rest servedOrKnown connection error unreadable =>
      by_cases more : servedOrKnown.size < share.descriptor.chunks.length
      · rw [run_serveChunks_of_unreadable more unreadable] at ended
        rw [serveTurns_of_unreadable unreadable]
        split at ended
        · exact .inr ⟨error, receiveFrame_eq_error unreadable rest, ‹_›⟩
        · cases ended
      · exact .inl (available_of_done listed known more)
  | turn frame rest servedOrKnown connection message after more received ih =>
      rw [run_serveChunks_cons more received] at ended
      rw [serveTurns_cons more received]
      have turned := turnEnd_serveTurn share servedOrKnown message
        { connection with replies := rest }
      cases run : (serveTurn share servedOrKnown message).run
          { connection with replies := rest } with
      | error cause next =>
          rw [run] at ended
          cases ended
      | ok answer next =>
          rw [run] at ended turned
          cases turned with
          | answered same sent =>
              exact ih answer next run (available_of_answer known same) ended

end

/-! ## Everything a session gives out -/

/-- What the chunk loop does with the share it has loaded, from the connection it starts on. -/
structure ServesOnly (prims : Primitives) (share : ServedShare) (advertised : List UInt32)
    (entered : Connection) (result : EStateM.Result NetworkError Connection Unit) : Prop where
  /-- The loop sends what its turns send. -/
  sent : result.final.sent =
    entered.sent ++ (serveTurns share entered.replies ∅ entered).flatMap ServeTurn.sent
  /-- Chunk frames carry advertised chunks as the descriptor describes them. -/
  chunks : ∀ turn ∈ serveTurns share entered.replies ∅ entered, ∀ index data,
    .raw index data ∈ turn.sent →
      index ∈ advertised ∧ DescribedBytes prims share.descriptor index data
  turns : ∀ turn ∈ serveTurns share entered.replies ∅ entered,
    turn.Proper prims share advertised
  failed : ∀ turn ∈ serveTurns share entered.replies ∅ entered, ∀ error,
    turn.answer = .error error → ∃ final, result = .error error final
  ended : ∀ final, result = .ok () final →
    (∀ entry ∈ share.descriptor.chunks, entry.index ∈ advertised) ∨
      peerClosed (entered.replies.drop (serveTurns share entered.replies ∅ entered).length)

section

variable {prims : Primitives} {disk : Disk} {paths : LibraryPaths} {descriptor : EtleDescriptor}

theorem mem_availableChunkIndexes {index : UInt32} :
    index ∈ availableChunkIndexes prims disk paths descriptor ↔
      index ∈ (ServedShare.load prims disk paths descriptor).available := by
  simp [ServedShare.load, TreeSet.mem_foldl_insert]

/-- The stored bytes of an available chunk are described. -/
theorem describedBytes_of_available {index : UInt32} {data : Bytes}
    (has : index ∈ (ServedShare.load prims disk paths descriptor).available)
    (stored : (disk paths).chunks (.chunk index) = some data) :
    DescribedBytes prims descriptor index data := by
  obtain ⟨entry, member, rfl, verifies⟩ := mem_available_load.mp has
  obtain ⟨found, there, size, hash⟩ := chunkVerifies_iff.mp verifies
  obtain rfl := Option.some.inj (stored.symm.trans there)
  exact ⟨entry, member, rfl, size, hash⟩

/-- Every turn of the loop is answered as it has to be. -/
theorem proper_of_mem_serveTurns {turn : ServeTurn} {frames : List Frame}
    {connection : Connection}
    (member : turn ∈ serveTurns (.load prims disk paths descriptor) frames ∅ connection) :
    turn.Proper prims (.load prims disk paths descriptor)
      (availableChunkIndexes prims disk paths descriptor) := by
  obtain ⟨known, answer⟩ := turnEnd_of_mem_serveTurns (by simp) member
  refine ⟨fun index here => mem_availableChunkIndexes.mpr (known index here), ?_, ?_, ?_, ?_⟩
  · intro answers servedOrKnown answered index here
    obtain ⟨next, same, answer⟩ | ⟨error, failed, -⟩ | ⟨error, -, failed⟩ := answer
    · obtain rfl := Except.ok.inj (answered.symm.trans same)
      exact mem_availableChunkIndexes.mpr (available_of_answer known answer index here)
    · cases answered.symm.trans failed
    · cases answered.symm.trans failed
  · intro index has requested
    rw [requested] at answer
    obtain ⟨next, same, answer⟩ | ⟨error, failed, answer⟩ | refused := answer
    · cases answer with
      | unavailable lacks => exact absurd (mem_availableChunkIndexes.mp has) lacks
      | @served _ data available stored =>
          exact .inl ⟨data, by simp [ServeTurn.sent, same],
            describedBytes_of_available available stored⟩
    · cases answer with
      | unsendable _ cannot => exact .inr (.inl ⟨cannot, error, failed⟩)
      | unexpected other => exact absurd rfl (other index)
    · exact .inr (.inr refused)
  · intro index lacks requested
    rw [requested] at answer
    obtain ⟨next, same, answer⟩ | ⟨error, failed, answer⟩ | refused := answer
    · cases answer with
      | unavailable => exact .inl (by simp [ServeTurn.sent, same])
      | served has => exact absurd (mem_availableChunkIndexes.mpr has) lacks
    · cases answer with
      | unsendable has => exact absurd (mem_availableChunkIndexes.mpr has) lacks
      | unexpected other => exact absurd rfl (other index)
    · exact .inr refused
  · intro other
    obtain ⟨next, same, answer⟩ | ⟨error, failed, -⟩ | ⟨error, -, failed⟩ := answer
    · generalize turn.message = message at answer other
      cases answer with
      | noted => simp [ServeTurn.sent, same]
      | unavailable | served => exact absurd rfl (other _)
    · simp [ServeTurn.sent, failed]
    · simp [ServeTurn.sent, failed]

/-- A turn that is answered as it has to be sends advertised chunks only. -/
theorem ServeTurn.Proper.chunks {share : ServedShare} {advertised : List UInt32}
    {turn : ServeTurn} (proper : turn.Proper prims share advertised) {index : UInt32}
    {data : Bytes} (sent : .raw index data ∈ turn.sent) :
    index ∈ advertised ∧ DescribedBytes prims share.descriptor index data := by
  have nothing {error : NetworkError} (failed : turn.answer = .error error) : False := by
    simp [ServeTurn.sent, failed] at sent
  by_cases request : ∃ requested, turn.message = .requestChunk requested
  · obtain ⟨requested, message⟩ := request
    by_cases has : requested ∈ advertised
    · obtain ⟨bytes, only, described⟩ | ⟨-, error, failed⟩ | ⟨error, -, failed⟩ :=
        proper.requested requested has message
      · obtain ⟨rfl, rfl⟩ : index = requested ∧ data = bytes := by simpa [only] using sent
        exact ⟨has, described⟩
      · exact (nothing failed).elim
      · exact (nothing failed).elim
    · obtain only | ⟨error, -, failed⟩ := proper.unavailable requested has message
      · simp [only] at sent
      · exact (nothing failed).elim
  · simp [proper.silent (not_exists.mp request)] at sent

/-- The chunk loop gives out what it has advertised and verified. -/
theorem servesOnly_serveChunks (prims : Primitives) (disk : Disk) (paths : LibraryPaths)
    (descriptor : EtleDescriptor) (entered : Connection) :
    ServesOnly prims (.load prims disk paths descriptor)
      (availableChunkIndexes prims disk paths descriptor) entered
      ((serveChunks (.load prims disk paths descriptor) entered.replies ∅).run entered) where
  sent := sent_serveChunks _ _ _ _
  chunks := fun turn member index data sent => (proper_of_mem_serveTurns member).chunks sent
  turns := fun turn member => proper_of_mem_serveTurns member
  failed := fun turn member error failed => run_serveChunks_of_failed_turn failed member
  ended := by
    intro final ended
    have listed : ∀ index ∈ (ServedShare.load prims disk paths descriptor).available,
        index ∈ descriptor.chunks.map ChunkMeta.index := by
      intro index has
      obtain ⟨entry, member, rfl, -⟩ := mem_available_load.mp has
      exact List.mem_map_of_mem member
    refine (available_or_peerClosed listed (by simp) ended).imp_left fun covers entry member => ?_
    exact mem_availableChunkIndexes.mpr (covers entry member)

/-- How a session has entered its chunk loop: the share is loaded, its chunks are advertised, and no
chunk has been sent. -/
structure EntersLoop (prims : Primitives) (disk : Disk) (libraryRoot : PathBuf)
    (shareId : ShareId) (loaded : LoadedShare) (entered : Connection) : Prop where
  loads : loadShare prims disk { root := libraryRoot, shareId } = .ok loaded
  advertised : .encoded (.have loaded.availableChunks) ∈ entered.sent
  unserved : ∀ index data, .raw index data ∉ entered.sent

theorem availableChunks_of_loadShare {loaded : LoadedShare}
    (loads : loadShare prims disk paths = .ok loaded) :
    loaded.availableChunks = availableChunkIndexes prims disk paths loaded.descriptor := by
  simp only [loadShare, bind, Except.bind, pure, Except.pure] at loads
  split at loads
  · cases loads
  · split at loads
    · cases loads
    · split at loads
      · cases loads
      · obtain rfl := Except.ok.inj loads
        rfl

/-- The session has come to an end in its chunk loop. -/
def EndsInLoop (prims : Primitives) (disk : Disk) (libraryRoot : PathBuf)
    (result : EStateM.Result NetworkError Connection EtleDescriptor) : Prop :=
  ∃ shareId loaded entered, EntersLoop prims disk libraryRoot shareId loaded entered ∧
    result = (do
      serveChunks (.load prims disk { root := libraryRoot, shareId } loaded.descriptor)
        entered.replies ∅
      return loaded.descriptor : OnStream EtleDescriptor).run entered

/-- A raw chunk frame. -/
def Frame.IsRaw (frame : Frame) : Prop := ∃ index data, frame = .raw index data

/-- Offering a loaded share fails before the first chunk or ends in the chunk loop. -/
theorem failsOr_offerShare {libraryRoot : PathBuf} {nonce : Nonce} {shareId : ShareId}
    {loaded : LoadedShare} {sessionKey : SymmetricKey}
    (loads : loadShare prims disk { root := libraryRoot, shareId } = .ok loaded) :
    EStateM.FailsOr (Connection.Avoids Frame.IsRaw) (EndsInLoop prims disk libraryRoot)
      (offerShare prims disk nonce { root := libraryRoot, shareId } loaded sessionKey) := by
  unfold offerShare
  refine (keeps_avoids_send (by simp [Frame.IsRaw])).failsOr fun _ _ _ _ => ?_
  refine (EStateM.Keeps.liftExcept _ _).failsOr fun _ wrapped _ _ => ?_
  refine (keeps_avoids_send (by simp [Frame.IsRaw])).failsOr fun _ _ _ _ => ?_
  intro connection avoids
  have kept : ((send (.have loaded.availableChunks)).run connection).final.Avoids Frame.IsRaw :=
    keeps_avoids_send (by simp [Frame.IsRaw]) connection avoids
  rw [EStateM.run_bind]
  cases sent : (send (.have loaded.availableChunks)).run connection with
  | error failure left =>
      rw [sent] at kept
      exact .inl ⟨failure, left, rfl, kept⟩
  | ok value entered =>
      rw [sent] at kept
      have passes := run_send_eq_ok.mp sent
      refine .inr ⟨shareId, loaded, entered, ⟨loads, ?_, ?_⟩, rfl⟩
      · rw [passes.sent]
        simp
      · intro index data member
        exact kept _ member ⟨index, data, rfl⟩

/-- Every session fails before the first chunk or ends in the chunk loop. -/
theorem failsOr_seederSession {libraryRoot : PathBuf} {secret : Bytes32} {nonce : Nonce}
    {seederId : String} {authPsk : Option AuthPsk} {share : Option ShareId} :
    EStateM.FailsOr (Connection.Avoids Frame.IsRaw) (EndsInLoop prims disk libraryRoot)
      (seederSession prims disk libraryRoot secret nonce seederId authPsk share) := by
  have handshake : EStateM.Keeps (Connection.Avoids Frame.IsRaw)
      (serverProtocolHandshake seederId) :=
    keeps_avoids_serverProtocolHandshake (by simp [Frame.IsRaw]) (by simp [Frame.IsRaw])
  have exchange : EStateM.Keeps (Connection.Avoids Frame.IsRaw)
      (serverTransferSessionKeyExchange prims secret authPsk) :=
    keeps_avoids_serverTransferSessionKeyExchange (by simp [Frame.IsRaw]) (by simp [Frame.IsRaw])
  cases share with
  | none =>
      refine handshake.failsOr fun _ _ _ _ => exchange.failsOr fun _ sessionKey _ _ => ?_
      refine keeps_avoids_receiveExpected.failsOr fun _ shareId _ _ => ?_
      refine (EStateM.Keeps.liftExcept _ _).failsOr fun _ loaded _ loads => ?_
      exact failsOr_offerShare (EStateM.run_liftExcept_eq_ok.mp loads).1
  | some shareId =>
      refine (EStateM.Keeps.liftExcept _ _).failsOr fun _ loaded _ loads => ?_
      refine handshake.failsOr fun _ _ _ _ => exchange.failsOr fun _ sessionKey _ _ => ?_
      exact failsOr_offerShare (EStateM.run_liftExcept_eq_ok.mp loads).1

end

/-- Whatever a client sends, a session over the library or over one share either fails before it has
sent a chunk, or enters its chunk loop with the share loaded and its chunks advertised, and gives
out there only what it has advertised and verified. -/
theorem seederSession_serves (prims : Primitives) (disk : Disk) (libraryRoot : PathBuf)
    (secret : Bytes32) (nonce : Nonce) (seederId : String) (authPsk : Option AuthPsk)
    (share : Option ShareId) (replies : List Frame)
    (sendLimit : Option (Nat × ProtocolError)) :
    let result := (seederSession prims disk libraryRoot secret nonce seederId authPsk share).run
      { replies, sendLimit, sent := [] }
    (∃ error final, result = .error error final ∧ ∀ index data, .raw index data ∉ final.sent) ∨
      ∃ shareId loaded entered, EntersLoop prims disk libraryRoot shareId loaded entered ∧
        ∃ served, result = (match served with
            | .ok () final => .ok loaded.descriptor final
            | .error error final => .error error final) ∧
          served = (serveChunks (.load prims disk { root := libraryRoot, shareId }
            loaded.descriptor) entered.replies ∅).run entered ∧
          ServesOnly prims (.load prims disk { root := libraryRoot, shareId } loaded.descriptor)
            loaded.availableChunks entered served := by
  intro result
  have fresh : Connection.Avoids Frame.IsRaw { replies, sendLimit, sent := [] } := by
    intro frame member
    cases member
  obtain ⟨error, final, failed, avoids⟩ | ⟨shareId, loaded, entered, enters, ends⟩ :
      _ ∨ EndsInLoop prims disk libraryRoot result := failsOr_seederSession _ fresh
  · refine .inl ⟨error, final, failed, fun index data sent => ?_⟩
    exact avoids _ sent ⟨index, data, rfl⟩
  · refine .inr ⟨shareId, loaded, entered, enters, _, ?_, rfl, ?_⟩
    · refine ends.trans ?_
      rw [EStateM.run_bind]
      cases (serveChunks (.load prims disk { root := libraryRoot, shareId } loaded.descriptor)
        entered.replies ∅).run entered <;> rfl
    · rw [availableChunks_of_loadShare enters.loads]
      exact servesOnly_serveChunks prims disk _ loaded.descriptor entered

/-- A manifest that lists chunk 0 twice, the first time with a wrong size. -/
def repeatedManifest : Manifest :=
  { oneByteManifest [0] with
    chunks := [{ oneByteEntry 0 with encryptedSize := 18 }, oneByteEntry 0] }

/-- A library that holds the share of this manifest and its chunk. -/
def repeatedDisk : Disk := fun _ =>
  { oneByteDisk samplePaths with
    descriptor := .value (descriptorFromManifest transparentPrimitives repeatedManifest)
    secret := .value {
      shareId := (descriptorFromManifest transparentPrimitives repeatedManifest).shareId
      fileKey := sampleKey } }

/-- An advertised chunk whose first entry has another size is neither sent nor answered with an
error: the request for it ends the session. -/
theorem advertised_chunk_unanswered :
    let descriptor := descriptorFromManifest transparentPrimitives repeatedManifest
    let paths : LibraryPaths := { root := ["library"], shareId := descriptor.shareId }
    ∃ loaded, loadShare transparentPrimitives repeatedDisk paths = .ok loaded ∧
      0 ∈ loaded.availableChunks ∧
      (serveChunks (.load transparentPrimitives repeatedDisk paths loaded.descriptor)
        [.encoded (.requestChunk 0)] ∅).run
          { replies := [.encoded (.requestChunk 0)], sendLimit := none, sent := [] } =
        .error (.protocol (.rawChunkSizeMismatch 18 17))
          { replies := [], sendLimit := none, sent := [] } := by
  intro descriptor paths
  refine ⟨_, loadShare_of_values rfl rfl rfl, ?_, ?_⟩
  · decide +kernel
  · rfl

end Etle
