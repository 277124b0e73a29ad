import Etle.Transfer.OutputPaths
import Etle.Transfer.SeedRoundTrip

/-!
# Encrypted files

A file can be encrypted as a whole, with its chunks in memory.  This does what the pipeline of the
seeding command does on several threads; the result decrypts to the file; and chunks that were
changed or lost afterwards are found.
-/

namespace Etle

open Std (TreeMap)

/-- A manifest and the chunks it describes. -/
structure EncryptedFile where
  manifest : Manifest
  chunks : TreeMap UInt32 EncryptedChunk

/-- What three passes over a file find: the bytes that are hashed, its size, and its reads. -/
structure InputFile where
  hashed : Except ErrorKind Bytes
  size : Except ErrorKind UInt64
  fileName : String
  script : InputScript

/-- Number the reads from an index on; the index is incremented once more than it is used. -/
def readChunksFrom (failure : Option ErrorKind) :
    Nat → List Bytes → Except FileError (List SeedPlainChunk)
  | _, [] =>
      match failure with
      | none => .ok []
      | some kind => .error (.io kind)
  | index, data :: rest =>
      if index + 1 < UInt32.size then
        (readChunksFrom failure (index + 1) rest).map fun later =>
          { index := UInt32.ofNat index, data } :: later
      else
        .error .tooManyChunks

/-- Cut a file into chunks. -/
def readFileChunks (chunkSize : Nat) (script : InputScript) :
    Except FileError (List SeedPlainChunk) :=
  if chunkSize = 0 then .error (.invalidChunkSize chunkSize)
  else readChunksFrom script.failure 0 script.reads

section

variable (prims : Primitives) (key : SymmetricKey)

/-- Encrypt chunks one after another, each under a nonce drawn for it. -/
def encryptChunks (fileId : FileId) (nonces : UInt32 → Nonce) :
    List SeedPlainChunk → Except FileError (List SeedEncryptedChunk)
  | [] => .ok []
  | chunk :: rest =>
      let nonce := nonces chunk.index
      let plainSize := UInt64.ofNat chunk.data.length
      match encryptChunk prims key nonce chunk.data
          (buildChunkAad fileId chunk.index plainSize) with
      | .error failure => .error (.crypto failure)
      | .ok ciphertext =>
          (encryptChunks fileId nonces rest).map fun later =>
            { entry := {
                index := chunk.index
                plainSize
                encryptedSize := UInt64.ofNat ciphertext.length
                nonce
                blake3Hash := hashChunk prims ciphertext }
              ciphertext } :: later

/-- The chunks by their indices. -/
def chunkMap (sealed : List SeedEncryptedChunk) : TreeMap UInt32 EncryptedChunk :=
  sealed.foldl (fun chunks result =>
    chunks.insert result.entry.index { index := result.entry.index, data := result.ciphertext }) ∅

/-- The encrypted file of encrypted chunks. -/
def sealedFile (input : InputFile) (hashed : Bytes) (fileSize : UInt64) (chunkSize : Nat)
    (sealed : List SeedEncryptedChunk) : EncryptedFile where
  manifest := {
    fileId := hashFileId prims hashed
    fileName := input.fileName
    fileSize
    chunkSize := UInt64.ofNat chunkSize
    chunks := sealed.map SeedEncryptedChunk.entry }
  chunks := chunkMap sealed

/-- Encrypt a file. -/
def encryptFile (nonces : UInt32 → Nonce) (chunkSize : Nat) (input : InputFile) :
    Except FileError EncryptedFile :=
  match input.hashed with
  | .error kind => .error (.io kind)
  | .ok hashed =>
      match input.size with
      | .error kind => .error (.io kind)
      | .ok fileSize =>
          match readFileChunks chunkSize input.script with
          | .error error => .error error
          | .ok plain =>
              (encryptChunks prims key (hashFileId prims hashed) nonces plain).map
                (sealedFile prims input hashed fileSize chunkSize)

end

/-- The error of the first entry whose chunk is not the one it was. -/
def firstChange (chunks tampered : TreeMap UInt32 EncryptedChunk) (entries : List ChunkMeta) :
    Option FileError :=
  (entries.find? fun entry => bytesAt tampered entry.index ≠ bytesAt chunks entry.index).map
    fun entry =>
      if bytesAt tampered entry.index = none then .missingChunk entry.index
      else .chunkHashMismatch entry.index

section

variable {prims : Primitives} {key : SymmetricKey} {fileId : FileId} {nonces : UInt32 → Nonce}

/-- The reads with their numbers. -/
def numbered (index : Nat) (reads : List Bytes) : List SeedPlainChunk :=
  (reads.zipIdx index).map fun (data, number) => { index := UInt32.ofNat number, data }

/-- A file is cut into its reads unless a read fails or there are too many of them. -/
theorem readChunksFrom_eq_ok {failure : Option ErrorKind} {index : Nat} {reads : List Bytes}
    {plain : List SeedPlainChunk} :
    readChunksFrom failure index reads = .ok plain ↔
      failure = none ∧ (reads = [] ∨ index + reads.length < UInt32.size) ∧
        plain = numbered index reads := by
  induction reads generalizing index plain with
  | nil => cases failure <;> simp [readChunksFrom, numbered, eq_comm]
  | cons data rest ih =>
      unfold readChunksFrom
      constructor
      · intro cut
        split at cut
        · rename_i room
          cases later : readChunksFrom failure (index + 1) rest with
          | error error =>
              rw [later] at cut
              cases cut
          | ok others =>
              rw [later] at cut
              obtain rfl := Except.ok.inj cut
              obtain ⟨untilEnd, few, rfl⟩ := ih.mp later
              refine ⟨untilEnd, .inr ?_, by simp [numbered]⟩
              rcases few with rfl | few
              · simpa using room
              · rw [List.length_cons]
                omega
        · cases cut
      · rintro ⟨rfl, few, rfl⟩
        have few := few.resolve_left (List.cons_ne_nil data rest)
        rw [List.length_cons] at few
        have room : index + 1 < UInt32.size := by omega
        have later := (@ih (index + 1) (numbered (index + 1) rest)).mpr
          ⟨rfl, .inr (by omega), rfl⟩
        rw [if_pos room, later]
        simp [numbered, Except.map]

/-- Chunks are encrypted one after another as the workers of a pipeline encrypt them. -/
theorem encryptChunks_eq_ok {plain : List SeedPlainChunk} {sealed : List SeedEncryptedChunk} :
    encryptChunks prims key fileId nonces plain = .ok sealed ↔
      List.Forall₂ (fun chunk result =>
        encryptSeedChunk prims fileId key (nonces chunk.index) chunk = .ok result)
        plain sealed := by
  induction plain generalizing sealed with
  | nil => cases sealed <;> simp [encryptChunks]
  | cons chunk rest ih =>
      unfold encryptChunks
      dsimp only
      cases cipher : encryptChunk prims key (nonces chunk.index) chunk.data
          (buildChunkAad fileId chunk.index (UInt64.ofNat chunk.data.length)) with
      | error failure =>
          constructor
          · intro impossible
            cases impossible
          · intro each
            cases each with
            | cons head tail => simp [encryptSeedChunk, cipher] at head
      | ok ciphertext =>
          constructor
          · intro encrypted
            cases later : encryptChunks prims key fileId nonces rest with
            | error failure =>
                simp only [later] at encrypted
                cases encrypted
            | ok others =>
                simp only [later] at encrypted
                obtain rfl := Except.ok.inj encrypted
                refine .cons ?_ (ih.mp later)
                simp [encryptSeedChunk, cipher]
          · intro each
            cases each with
            | @cons _ result _ others head tail =>
                simp only [ih.mpr tail]
                obtain rfl := by simpa [encryptSeedChunk, cipher] using head
                rfl

/-! ## Decrypting -/

theorem index_of_encryptSeedChunk_ok {nonce : Nonce} {chunk : SeedPlainChunk}
    {result : SeedEncryptedChunk}
    (encrypted : encryptSeedChunk prims fileId key nonce chunk = .ok result) :
    result.entry.index = chunk.index ∧ result.entry.nonce = nonce := by
  simp only [encryptSeedChunk] at encrypted
  split at encrypted
  · cases encrypted
  · obtain rfl := by simpa using encrypted
    exact ⟨rfl, rfl⟩

/-- The chunks of a map are those that were put into it last. -/
theorem bytesAt_chunkMap {sealed : List SeedEncryptedChunk}
    (distinct : sealed.Pairwise fun left right => left.entry.index ≠ right.entry.index) :
    ∀ result ∈ sealed, bytesAt (chunkMap sealed) result.entry.index = some result.ciphertext := by
  induction sealed using List.reverseRecOn with
  | nil => simp
  | append_singleton earlier last ih =>
      obtain ⟨before, -, apart⟩ := List.pairwise_append.mp distinct
      intro result member
      rw [bytesAt, chunkMap, List.foldl_append, List.foldl_cons, List.foldl_nil,
        TreeMap.getElem?_insert]
      rcases List.mem_append.mp member with early | late
      · have other : last.entry.index ≠ result.entry.index :=
          (apart result early last (List.mem_singleton.mpr rfl)).symm
        rw [if_neg (by simpa using other)]
        exact ih before result early
      · obtain rfl := List.mem_singleton.mp late
        simp

theorem numbered_index_lt {index : Nat} {reads : List Bytes}
    (few : reads = [] ∨ index + reads.length < UInt32.size) :
    (numbered index reads).Pairwise fun left right => left.index < right.index := by
  induction reads generalizing index with
  | nil => exact .nil
  | cons data rest ih =>
      have few := few.resolve_left (List.cons_ne_nil data rest)
      rw [List.length_cons] at few
      refine .cons ?_ (ih (.inr (by omega)))
      intro later member
      obtain ⟨⟨read, number⟩, found, rfl⟩ := List.mem_map.mp member
      obtain ⟨least, most, -⟩ := List.mem_zipIdx found
      simp only [UInt32.lt_iff_toNat_lt, UInt32.toNat_ofNat']
      rw [Nat.mod_eq_of_lt, Nat.mod_eq_of_lt]
      all_goals
        simp only [UInt32.size] at few
        omega

theorem data_numbered (index : Nat) (reads : List Bytes) :
    (numbered index reads).map SeedPlainChunk.data = reads := by
  rw [numbered, List.map_map]
  exact List.zipIdx_map_fst index reads

/-- The chunks of an encrypted file open to the reads. -/
theorem opens_of_sealed (correct : prims.AeadCorrect) {plain : List SeedPlainChunk}
    {sealed : List SeedEncryptedChunk} {store : UInt32 → Option Bytes}
    (encrypted : List.Forall₂ (fun chunk result =>
      encryptSeedChunk prims fileId key (nonces chunk.index) chunk = .ok result) plain sealed)
    (stored : ∀ result ∈ sealed, store result.entry.index = some result.ciphertext) :
    Opens prims fileId key store (sealed.map SeedEncryptedChunk.entry)
      (plain.map SeedPlainChunk.data) := by
  induction encrypted with
  | nil => exact .nil
  | @cons chunk result plain sealed head tail ih =>
      have holds := holdsChunk_of_encryptSeedChunk correct head
      refine .cons ⟨_, stored result List.mem_cons_self, holds.hash, holds.opens⟩ ?_
      exact ih fun other member => stored other (List.mem_cons_of_mem _ member)

theorem indices_of_sealed {plain : List SeedPlainChunk} {sealed : List SeedEncryptedChunk}
    (encrypted : List.Forall₂ (fun chunk result =>
      encryptSeedChunk prims fileId key (nonces chunk.index) chunk = .ok result) plain sealed) :
    sealed.map (fun result => result.entry.index) = plain.map SeedPlainChunk.index := by
  induction encrypted with
  | nil => rfl
  | cons head tail ih =>
      rw [List.map_cons, List.map_cons, (index_of_encryptSeedChunk_ok head).1, ih]

theorem indices_labelled {entries : List ChunkMeta} {plain : List Bytes}
    (sameLength : entries.length = plain.length) :
    (labelled entries plain).map DecryptedChunk.index = entries.map ChunkMeta.index := by
  induction entries generalizing plain with
  | nil => rfl
  | cons entry rest ih =>
      cases plain with
      | nil => simp at sameLength
      | cons data others => simpa [labelled] using ih (by simpa using sameLength)

/-- Chunks whose indices increase are joined in their order. -/
theorem joinChunks_labelled {entries : List ChunkMeta} {plain : List Bytes}
    (sameLength : entries.length = plain.length)
    (increasing : entries.Pairwise fun left right => left.index < right.index) :
    joinChunks (labelled entries plain) = plain.flatten := by
  have sorted : (labelled entries plain).Pairwise fun left right => left.index ≤ right.index := by
    apply List.pairwise_map.mp
    rw [indices_labelled sameLength]
    exact List.pairwise_map.mpr (increasing.imp fun less => UInt32.le_of_lt less)
  rw [joinChunks, sorted.insertionSort_eq, flatMap_labelled sameLength]

/-- A file is encrypted when its passes succeed, its reads can be numbered and all of them are
encrypted. -/
theorem encryptFile_eq_ok {chunkSize : Nat} {input : InputFile} {file : EncryptedFile} :
    encryptFile prims key nonces chunkSize input = .ok file ↔
      ∃ hashed fileSize sealed, input.hashed = .ok hashed ∧ input.size = .ok fileSize ∧
        chunkSize ≠ 0 ∧ input.script.failure = none ∧
        (input.script.reads = [] ∨ input.script.reads.length < UInt32.size) ∧
        List.Forall₂ (fun chunk result =>
          encryptSeedChunk prims (hashFileId prims hashed) key (nonces chunk.index) chunk =
            .ok result) (numbered 0 input.script.reads) sealed ∧
        file = sealedFile prims input hashed fileSize chunkSize sealed := by
  unfold encryptFile
  constructor
  · intro encrypted
    split at encrypted
    · cases encrypted
    · rename_i hashed read
      split at encrypted
      · cases encrypted
      · rename_i fileSize known
        split at encrypted
        · cases encrypted
        · rename_i plain cut
          unfold readFileChunks at cut
          split at cut
          · cases cut
          · rename_i positive
            obtain ⟨untilEnd, few, rfl⟩ := readChunksFrom_eq_ok.mp cut
            cases all : encryptChunks prims key (hashFileId prims hashed) nonces
                (numbered 0 input.script.reads) with
            | error failure =>
                rw [all] at encrypted
                cases encrypted
            | ok sealed =>
                rw [all] at encrypted
                obtain rfl := Except.ok.inj encrypted
                exact ⟨hashed, fileSize, sealed, read, known, positive, untilEnd,
                  by simpa using few, encryptChunks_eq_ok.mp all, rfl⟩
  · rintro ⟨hashed, fileSize, sealed, read, known, positive, untilEnd, few, each, rfl⟩
    have cut : readFileChunks chunkSize input.script = .ok (numbered 0 input.script.reads) := by
      rw [readFileChunks, if_neg positive]
      exact readChunksFrom_eq_ok.mpr ⟨untilEnd, by simpa using few, rfl⟩
    rw [read, known, cut]
    simp only [encryptChunks_eq_ok.mpr each]
    rfl

/-- Where chunks that open are replaced by others, decryption stops at the first change. -/
theorem decryptChunks_of_tampered {entries : List ChunkMeta} {plain : List Bytes}
    {chunks tampered : TreeMap UInt32 EncryptedChunk}
    (opens : Opens prims fileId key (bytesAt chunks) entries plain)
    (unique : ∀ index data, bytesAt chunks index = some data → prims.NoSecondPreimage data) :
    decryptChunks prims fileId tampered key entries =
      (firstChange chunks tampered entries).elim (decryptChunks prims fileId chunks key entries)
        .error := by
  induction opens with
  | nil => rfl
  | @cons entry data entries plain head tail ih =>
      obtain ⟨cipher, stored, hash, opened⟩ := head
      obtain ⟨chunk, found, rfl⟩ := Option.map_eq_some_iff.mp stored
      have whole : decryptChunks prims fileId chunks key (entry :: entries) =
          (decryptChunks prims fileId chunks key entries).map fun later =>
            { index := entry.index, data } :: later := by
        rw [decryptChunks]
        simp only [found, hash, opened, ne_eq, not_true_eq_false, if_false]
        cases decryptChunks prims fileId chunks key entries <;> rfl
      cases replaced : tampered[entry.index]? with
      | none =>
          have changed : bytesAt tampered entry.index ≠ bytesAt chunks entry.index := by
            simp [bytesAt, replaced, found]
          have lost : bytesAt tampered entry.index = none := by simp [bytesAt, replaced]
          rw [firstChange, List.find?_cons_of_pos (by simpa using changed)]
          simp [decryptChunks, replaced, lost]
      | some other =>
          by_cases same : other.data = chunk.data
          · have unchanged : bytesAt tampered entry.index = bytesAt chunks entry.index := by
              simp [bytesAt, replaced, found, same]
            rw [firstChange, List.find?_cons_of_neg (by simpa using unchanged), ← firstChange,
              whole]
            rw [decryptChunks]
            simp only [replaced, same, hash, opened, ne_eq, not_true_eq_false, if_false, ih]
            cases firstChange chunks tampered entries with
            | none => cases decryptChunks prims fileId chunks key entries <;> rfl
            | some error => rfl
          · have changed : bytesAt tampered entry.index ≠ bytesAt chunks entry.index := by
              simpa [bytesAt, replaced, found] using same
            have kept : bytesAt tampered entry.index ≠ none := by simp [bytesAt, replaced]
            have differs : hashChunk prims other.data ≠ entry.blake3Hash := by
              intro equal
              apply same
              apply unique entry.index chunk.data stored
              exact congrArg ChunkHash.bytes (equal.trans hash.symm)
            rw [firstChange, List.find?_cons_of_pos (by simpa using changed)]
            simp [decryptChunks, replaced, differs, kept]

end

section

variable {prims : Primitives} {fileId : FileId} {fileKey : SymmetricKey} {workerCount : Nat}
  {script : InputScript}

/-- The reader has numbered what it has read, and reads until the end of the file. -/
def SeedReader.Counted (script : InputScript) : SeedReader → Prop
  | .reading next rest =>
      rest.failure = script.failure ∧ next.toNat + rest.reads.length = script.reads.length
  | .sending chunk rest =>
      rest.failure = script.failure ∧
        chunk.index.toNat + 1 + rest.reads.length = script.reads.length
  | .joining | .returned (.ok _) =>
      script.failure = none ∧ script.reads.length < UInt32.size
  | .failed _ | .returned (.error _) => True

theorem counted_of_step (state : SeedPipeline workerCount) (event : SeedEvent workerCount)
    (next : SeedPipeline workerCount) (counted : state.reader.Counted script)
    (step : (encryptFileToStagingParallel prims fileId fileKey workerCount).step state event =
      some next) : next.reader.Counted script := by
  cases seedMove_of_step step with
  | @read index data rest failure reading =>
      rw [reading] at counted
      obtain ⟨untilEnd, length⟩ := counted
      refine ⟨untilEnd, ?_⟩
      rw [List.length_cons] at length
      change index.toNat + 1 + rest.length = script.reads.length
      omega
  | @endOfFile index reading =>
      rw [reading] at counted
      obtain ⟨untilEnd, length⟩ := counted
      exact ⟨untilEnd.symm, by rw [← length]; simpa using index.toNat_lt⟩
  | @sendPlain chunk rest sending room increment =>
      rw [sending] at counted
      obtain ⟨untilEnd, length⟩ := counted
      refine ⟨untilEnd, ?_⟩
      rw [UInt32.toNat_add, UInt32.toNat_one, Nat.mod_eq_of_lt increment]
      exact length
  | @join outcome joining ended finished =>
      rw [joining] at counted
      cases outcome with
      | ok metas => exact counted
      | error error => trivial
  | readFails | sendLast | leaveScope => trivial
  | _ => exact counted

/-- A pipeline that has returned metadata has read its input to the end. -/
theorem counted_of_returned {state : SeedPipeline workerCount} {metas : List ChunkMeta}
    (reach : (encryptFileToStagingParallel prims fileId fileKey workerCount).Reaches
      (.initial script workerCount) state)
    (returned : state.reader = .returned (.ok metas)) :
    script.failure = none ∧ (script.reads = [] ∨ script.reads.length < UInt32.size) := by
  have start : (SeedPipeline.initial script workerCount).reader.Counted script := by
    simp [SeedPipeline.initial, SeedReader.Counted]
  have counted := Machine.invariant_of_reaches counted_of_step start reach
  rw [returned] at counted
  exact ⟨counted.1, .inr counted.2⟩

/-- Encrypted chunks are numbered in their order. -/
theorem sealed_increasing {nonces : UInt32 → Nonce} {reads : List Bytes}
    {sealed : List SeedEncryptedChunk} (few : reads = [] ∨ reads.length < UInt32.size)
    (each : List.Forall₂ (fun chunk result =>
      encryptSeedChunk prims fileId fileKey (nonces chunk.index) chunk = .ok result)
      (numbered 0 reads) sealed) :
    sealed.Pairwise fun left right => left.entry.index < right.entry.index := by
  apply List.pairwise_map.mp
  rw [indices_of_sealed each]
  exact List.pairwise_map.mpr (numbered_index_lt (by simpa using few))

end

/-- Encryption with the nonces that a pipeline has drawn gives the metadata that the pipeline
returns, and the chunks that it has staged. -/
theorem encryptFile_agrees (prims : Primitives) (fileKey : SymmetricKey) (workerCount : Nat)
    (staffed : 0 < workerCount) (chunkSize : Nat) (positive : chunkSize ≠ 0) (input : InputFile)
    (hashed : Bytes) (fileSize : UInt64) (read : input.hashed = .ok hashed)
    (known : input.size = .ok fileSize) (state : SeedPipeline workerCount) (metas : List ChunkMeta)
    (reach : (encryptFileToStagingParallel prims (hashFileId prims hashed) fileKey
      workerCount).Reaches (.initial input.script workerCount) state)
    (returned : state.reader = .returned (.ok metas)) :
    ∃ nonces file, encryptFile prims fileKey nonces chunkSize input = .ok file ∧
      file.manifest = {
        fileId := hashFileId prims hashed
        fileName := input.fileName
        fileSize
        chunkSize := UInt64.ofNat chunkSize
        chunks := metas } ∧
      ∀ entry ∈ metas, bytesAt file.chunks entry.index = state.staged entry.index := by
  obtain ⟨untilEnd, few⟩ := counted_of_returned reach returned
  obtain ⟨sameLength, describes⟩ := returned_describes_reads staffed reach returned
  -- Chunk for chunk, the pipeline has drawn the nonce that its entry records.
  let nonces (index : UInt32) : Nonce :=
    (metas[index.toNat]?.map ChunkMeta.nonce).getD ⟨Vector.replicate 24 0⟩
  let sealed := metas.map fun entry =>
    ({ entry, ciphertext := (state.staged entry.index).getD [] } : SeedEncryptedChunk)
  have each : List.Forall₂ (fun chunk result =>
      encryptSeedChunk prims (hashFileId prims hashed) fileKey (nonces chunk.index) chunk =
        .ok result) (numbered 0 input.script.reads) sealed := by
    refine List.forall₂_iff_get.mpr ⟨by simp [numbered, sealed, sameLength], ?_⟩
    intro position in_reads in_sealed
    have in_metas : position < metas.length := by simpa [sealed] using in_sealed
    obtain ⟨index, data, nonce, cipher, found, encrypted, staged⟩ :=
      describes position _ (List.getElem?_eq_getElem in_metas)
    obtain ⟨in_script, rfl⟩ := List.getElem?_eq_some_iff.mp found
    have number : UInt32.ofNat position = metas[position].index := by
      apply UInt32.toNat.inj
      rw [index, UInt32.toNat_ofNat', Nat.mod_eq_of_lt]
      exact index ▸ metas[position].index.toNat_lt
    have drawn : nonces metas[position].index = nonce := by
      simp only [nonces, index, List.getElem?_eq_getElem in_metas, Option.map_some,
        Option.getD_some]
      exact (index_of_encryptSeedChunk_ok encrypted).2
    simp only [numbered, sealed, List.get_eq_getElem, List.getElem_map, List.getElem_zipIdx,
      Nat.zero_add, number, drawn, staged, Option.getD_some]
    exact encrypted
  refine ⟨nonces, sealedFile prims input hashed fileSize chunkSize sealed,
    encryptFile_eq_ok.mpr ⟨hashed, fileSize, sealed, read, known, positive, untilEnd, few, each,
      rfl⟩, ?_, ?_⟩
  · simp [sealedFile, sealed, Function.comp_def]
  · intro entry member
    obtain ⟨position, in_metas, rfl⟩ := List.getElem_of_mem member
    obtain ⟨-, -, -, cipher, -, -, staged⟩ :=
      describes position _ (List.getElem?_eq_getElem in_metas)
    have distinct : sealed.Pairwise fun left right => left.entry.index ≠ right.entry.index :=
      (sealed_increasing few each).imp fun less same =>
        absurd (same ▸ less) (UInt32.lt_irrefl _)
    have kept := bytesAt_chunkMap distinct
      { entry := metas[position], ciphertext := (state.staged metas[position].index).getD [] }
      (List.mem_map_of_mem member)
    simpa [staged, sealedFile] using kept

/-- A file of one byte. -/
def oneByteInput : InputFile where
  hashed := .ok [7]
  size := .ok 1
  fileName := "sample.bin"
  script := { reads := [[7]], failure := none }

/-- One worker encrypts its chunk as the plain way does. -/
theorem encryptFile_agrees_on_one_byte :
    ∃ nonces file, encryptFile transparentPrimitives sampleKey nonces 1 oneByteInput = .ok file ∧
      file.manifest.chunks.length = 1 := by
  obtain ⟨final, run, returned, -⟩ :=
    run_oneReadSchedule (hashFileId transparentPrimitives [7]) sampleKey [7]
  obtain ⟨nonces, file, encrypted, manifest, -⟩ := encryptFile_agrees transparentPrimitives
    sampleKey 1 (by decide) 1 (by decide) oneByteInput [7] 1 rfl rfl final _ ⟨_, run⟩ returned
  exact ⟨nonces, file, encrypted, by rw [manifest]; rfl⟩

/-- A file that is encrypted decrypts to its reads, if these have the hash that was recorded before.
When chunks are replaced or lost afterwards, decryption reports the first of them in the order of
the manifest, and without one nothing changes. -/
theorem encryptFile_roundTrip (prims : Primitives) (correct : prims.AeadCorrect)
    (key : SymmetricKey) (nonces : UInt32 → Nonce) (chunkSize : Nat) (input : InputFile)
    (file : EncryptedFile)
    (encrypted : encryptFile prims key nonces chunkSize input = .ok file)
    (unique : ∀ index data, bytesAt file.chunks index = some data → prims.NoSecondPreimage data)
    (tampered : TreeMap UInt32 EncryptedChunk) :
    decryptToBytes prims file.manifest file.chunks key =
        (if hashFileId prims input.script.reads.flatten = file.manifest.fileId then
          .ok input.script.reads.flatten
        else
          .error .finalHashMismatch) ∧
      decryptToBytes prims file.manifest tampered key =
        (firstChange file.chunks tampered file.manifest.chunks).elim
          (decryptToBytes prims file.manifest file.chunks key) .error := by
  obtain ⟨hashed, fileSize, sealed, read, known, positive, untilEnd, few, each, rfl⟩ :=
    encryptFile_eq_ok.mp encrypted
  have increasing := sealed_increasing few each
  have opens := opens_of_sealed correct each (bytesAt_chunkMap
    (increasing.imp fun less same => absurd (same ▸ less) (UInt32.lt_irrefl _)))
  rw [data_numbered] at opens
  have entries_increasing : (sealed.map SeedEncryptedChunk.entry).Pairwise fun left right =>
      left.index < right.index := List.pairwise_map.mpr increasing
  have plain := decryptChunks_eq_ok.mpr ⟨_, opens, rfl⟩
  have joined := joinChunks_labelled opens.length_eq entries_increasing
  refine ⟨?_, ?_⟩
  · unfold decryptToBytes
    simp only [sealedFile, plain, bind, Except.bind, joined, pure, Except.pure]
    split <;> rename_i hash
    · exact (if_neg hash).symm
    · exact (if_pos (not_not.mp hash)).symm
  · have altered := @decryptChunks_of_tampered _ _ _ _ _ _ tampered opens unique
    unfold decryptToBytes
    simp only [sealedFile, altered]
    cases firstChange (chunkMap sealed) tampered (sealed.map SeedEncryptedChunk.entry) <;> rfl

/-- The byte as it is encrypted. -/
def sealedByte : SeedEncryptedChunk where
  entry := oneReadEntry [7]
  ciphertext := 7 :: List.replicate aeadTagLength 0

/-- The chunk of this file is lost. -/
theorem encryptFile_roundTrip_lost :
    ∃ file, encryptFile transparentPrimitives sampleKey (fun _ => ⟨Vector.replicate 24 0⟩) 1
        oneByteInput = .ok file ∧
      decryptToBytes transparentPrimitives file.manifest file.chunks sampleKey = .ok [7] ∧
      decryptToBytes transparentPrimitives file.manifest ∅ sampleKey =
        .error (.missingChunk 0) := by
  have encrypted : encryptFile transparentPrimitives sampleKey (fun _ => ⟨Vector.replicate 24 0⟩)
      1 oneByteInput =
        .ok (sealedFile transparentPrimitives oneByteInput [7] 1 1 [sealedByte]) := rfl
  have stored : bytesAt (chunkMap [sealedByte]) 0 = some sealedByte.ciphertext :=
    bytesAt_chunkMap (List.pairwise_singleton _ _) sealedByte (List.mem_singleton.mpr rfl)
  obtain ⟨whole, lost⟩ := encryptFile_roundTrip transparentPrimitives aeadCorrect_transparent
    sampleKey (fun _ => ⟨Vector.replicate 24 0⟩) 1 oneByteInput _ encrypted (by
      intro index data found
      obtain ⟨chunk, there, rfl⟩ := Option.map_eq_some_iff.mp found
      obtain rfl : { index := 0, data := sealedByte.ciphertext } = chunk := by
        by_cases first : 0 = index
        · subst first
          simpa [sealedFile, chunkMap, sealedByte, oneReadEntry] using there
        · simp [sealedFile, chunkMap, sealedByte, oneReadEntry, first] at there
      exact noSecondPreimage_transparent (by decide)) ∅
  refine ⟨_, encrypted, whole.trans (if_pos rfl), lost.trans ?_⟩
  have change : firstChange (chunkMap [sealedByte]) ∅ [sealedByte.entry] =
      some (.missingChunk 0) := by
    have other : bytesAt ∅ sealedByte.entry.index ≠
        bytesAt (chunkMap [sealedByte]) sealedByte.entry.index := by
      change bytesAt ∅ 0 ≠ bytesAt (chunkMap [sealedByte]) 0
      rw [stored]
      simp [bytesAt]
    rw [firstChange, List.find?_cons_of_pos (by simpa using other)]
    simp [bytesAt, sealedByte, oneReadEntry]
  exact congrArg (fun found => Option.elim found _ _) change

end Etle
