import Etle.Foundations.Bitmap
import Etle.Protocol.WireCodec
import Etle.State.Model

/-!
# The progress and state files

Both records are written in a compact form: a magic number, the fields, the number of completed
chunks and a bitmap of their indices.  A file without the magic number is read in the older form,
which lists the indices.
-/

namespace Etle

open ByteCodec

/-- Why a record is not decoded. -/
inductive DecodeError where
  | bincode
  | otherString (text : String)
  deriving DecidableEq

def compactProgressMagic : Bytes := utf8 "ETLEPRG2"

def compactStateMagic : Bytes := utf8 "ETLESTA2"

/-- The compact form of progress. -/
structure CompactDownloadProgress where
  shareId : ShareId
  completedCount : UInt64
  completedBitmap : Bytes
  deriving DecidableEq

/-- The compact form of a state. -/
structure CompactShareState where
  shareId : ShareId
  mode : ShareMode
  outputDir : Option PathBuf
  completedCount : UInt64
  completedBitmap : Bytes
  deriving DecidableEq

/-- A bitmap up to the largest index, with a bit for each index. -/
def encodeCompletedBitmap (completedChunks : List UInt32) : Bytes :=
  match completedChunks.max? with
  | none => []
  | some maxIndex =>
      completedChunks.foldl (fun bitmap index => setBit bitmap index.toNat)
        (List.replicate (maxIndex.toNat / 8 + 1) 0)

/-- The indices of the bits that are set, as 32-bit numbers. -/
def decodeCompletedBitmap (bitmap : Bytes) : List UInt32 :=
  bitmap.zipIdx.flatMap fun (byte, byteIndex) =>
    if byte = 0 then
      []
    else
      (byteBits byte).map fun bit => UInt32.ofNat (byteIndex * 8 + bit)

def CompactDownloadProgress.fromProgress (progress : DownloadProgress) :
    CompactDownloadProgress where
  shareId := progress.shareId
  completedCount := UInt64.ofNat progress.completedChunks.length
  completedBitmap := encodeCompletedBitmap progress.completedChunks

def CompactDownloadProgress.intoProgress (compact : CompactDownloadProgress) : DownloadProgress :=
  .new compact.shareId
    ((decodeCompletedBitmap compact.completedBitmap).take compact.completedCount.toNat)

def CompactShareState.fromState (state : ShareState) : CompactShareState where
  shareId := state.shareId
  mode := state.mode
  outputDir := state.outputDir
  completedCount := UInt64.ofNat state.completedChunks.length
  completedBitmap := encodeCompletedBitmap state.completedChunks

def CompactShareState.intoState (compact : CompactShareState) : ShareState :=
  .new compact.shareId compact.mode compact.outputDir
    ((decodeCompletedBitmap compact.completedBitmap).take compact.completedCount.toNat)

/-- The serialisation of the four forms. -/
structure RecordBincode where
  progress : Bincode CompactDownloadProgress
  state : Bincode CompactShareState
  legacyProgress : Bincode DownloadProgress
  legacyState : Bincode ShareState

/-- What follows a fixed front. -/
def stripPrefix (front bytes : Bytes) : Option Bytes :=
  if front <+: bytes then some (bytes.drop front.length) else none

/-- Decode a value that takes up all the bytes. -/
def decodeExact {α : Type} (bincode : Bincode α) (bytes : Bytes) (label : String) :
    Except DecodeError α :=
  match bincode.decodeFromSlice bytes with
  | none => .error .bincode
  | some (value, bytesRead) =>
      if bytesRead ≠ bytes.length then
        .error (.otherString (label ++ " has trailing bytes: decoded " ++ toString bytesRead ++
          " of " ++ toString bytes.length ++ " bytes"))
      else
        .ok value

def encodeWithMagic {α : Type} (bincode : Bincode α) (magic : Bytes) (value : α) :
    Option Bytes := do
  let payload ← bincode.encodeToVec value
  return magic ++ payload

section

variable (bincode : RecordBincode)

def encodeProgress (progress : DownloadProgress) : Option Bytes :=
  encodeWithMagic bincode.progress compactProgressMagic (.fromProgress progress)

def encodeState (state : ShareState) : Option Bytes :=
  encodeWithMagic bincode.state compactStateMagic (.fromState state)

def decodeProgress (bytes : Bytes) : Except DecodeError DownloadProgress :=
  match stripPrefix compactProgressMagic bytes with
  | some payload => do
      return (← decodeExact bincode.progress payload "compact progress").intoProgress
  | none => decodeExact bincode.legacyProgress bytes "legacy progress"

def decodeState (bytes : Bytes) : Except DecodeError ShareState :=
  match stripPrefix compactStateMagic bytes with
  | some payload => do
      return (← decodeExact bincode.state payload "compact state").intoState
  | none => decodeExact bincode.legacyState bytes "legacy state"

end

/-! ## The bitmap of a list -/

theorem decodeCompletedBitmap_eq (bitmap : Bytes) :
    decodeCompletedBitmap bitmap = (bitPositions bitmap 0).map UInt32.ofNat := by
  rw [decodeCompletedBitmap, bitPositions, List.map_flatMap]
  congr 1
  funext entry
  obtain ⟨byte, byteIndex⟩ := entry
  dsimp only
  split
  · rename_i zero
    simp [zero, byteBits]
  · simp

/-- Setting the bits of a list adds exactly its elements. -/
theorem mem_bitPositions_foldl {indices : List UInt32} {bitmap : Bytes}
    (inside : ∀ index ∈ indices, index.toNat / 8 < bitmap.length) {position : Nat} :
    position ∈ bitPositions (indices.foldl (fun bitmap index => setBit bitmap index.toNat) bitmap)
        0 ↔
      position ∈ bitPositions bitmap 0 ∨ position ∈ indices.map UInt32.toNat := by
  induction indices generalizing bitmap with
  | nil => simp
  | cons index indices ih =>
      have here := inside index List.mem_cons_self
      have later (other : UInt32) (member : other ∈ indices) :
          other.toNat / 8 < (setBit bitmap index.toNat).length := by
        rw [length_setBit]
        exact inside other (List.mem_cons_of_mem _ member)
      rw [List.foldl_cons, ih later, mem_bitPositions_setBit here, List.map_cons, List.mem_cons]
      tauto

/-- The largest index of a list bounds it. -/
theorem le_of_max?_eq_some {chunks : List UInt32} {largest index : UInt32}
    (found : chunks.max? = some largest) (member : index ∈ chunks) : index ≤ largest := by
  have bounds : Std.LawfulOrderSup UInt32 := ⟨fun first second bound => by
    simp only [max, UInt32.le_iff_toNat_le]
    split <;> omega⟩
  exact (List.max?_le_iff found).mp (UInt32.le_refl _) index member

theorem mem_bitPositions_encode {chunks : List UInt32} {position : Nat} :
    position ∈ bitPositions (encodeCompletedBitmap chunks) 0 ↔
      position ∈ chunks.map UInt32.toNat := by
  unfold encodeCompletedBitmap
  split
  · rename_i none_left
    obtain rfl := List.max?_eq_none_iff.mp none_left
    simp [bitPositions]
  · rename_i maxIndex largest
    rw [mem_bitPositions_foldl, bitPositions_replicate]
    · simp
    · intro index member
      have bound := UInt32.le_iff_toNat_le.mp (le_of_max?_eq_some largest member)
      rw [List.length_replicate]
      omega

/-- A bitmap of a list is decoded to the list in increasing order without repetitions. -/
theorem decodeCompletedBitmap_encode (chunks : List UInt32) :
    decodeCompletedBitmap (encodeCompletedBitmap chunks) = normalizeChunkList chunks := by
  have fits {position : Nat} (set : position ∈ bitPositions (encodeCompletedBitmap chunks) 0) :
      ∃ index ∈ chunks, index.toNat = position :=
    List.mem_map.mp (mem_bitPositions_encode.mp set)
  have increasing : (decodeCompletedBitmap (encodeCompletedBitmap chunks)).Pairwise (· < ·) := by
    rw [decodeCompletedBitmap_eq, List.pairwise_map]
    refine (pairwise_bitPositions _ 0).imp_of_mem fun early late less => ?_
    obtain ⟨first, -, rfl⟩ := fits early
    obtain ⟨second, -, rfl⟩ := fits late
    simpa [UInt32.lt_iff_toNat_lt] using less
  refine eq_normalizeChunkList increasing fun index => ?_
  rw [decodeCompletedBitmap_eq, List.mem_map]
  constructor
  · rintro ⟨position, set, rfl⟩
    obtain ⟨other, member, rfl⟩ := fits set
    simpa using member
  · intro member
    exact ⟨index.toNat, mem_bitPositions_encode.mpr (List.mem_map_of_mem member), by simp⟩

/-- Cutting the decoded list at the length of the original cuts nothing off. -/
theorem take_decodeCompletedBitmap {chunks : List UInt32} (fits : chunks.length < 2 ^ 64) :
    (decodeCompletedBitmap (encodeCompletedBitmap chunks)).take
      (UInt64.ofNat chunks.length).toNat = normalizeChunkList chunks := by
  rw [decodeCompletedBitmap_encode, UInt64.toNat_ofNat_of_lt' fits]
  exact List.take_of_length_le (length_normalizeChunkList_le chunks)

/-! ## Round trips -/

theorem stripPrefix_append (front bytes : Bytes) :
    stripPrefix front (front ++ bytes) = some bytes := by
  simp [stripPrefix]

theorem decodeExact_eq_ok {α : Type} {bincode : Bincode α} {bytes : Bytes} {label : String}
    {value : α} :
    decodeExact bincode bytes label = .ok value ↔
      bincode.decodeFromSlice bytes = some (value, bytes.length) := by
  unfold decodeExact
  cases decoded : bincode.decodeFromSlice bytes with
  | none => simp
  | some found =>
      obtain ⟨other, bytesRead⟩ := found
      by_cases all : bytesRead = bytes.length
      · simp [all]
      · simp [all]

/-- The size of the text of a path. -/
def pathSize (path : PathBuf) : Nat := listSize (fun name => listSize (fun _ => 1) (utf8 name)) path

/-- No process has 2^62 bytes of memory. -/
def DownloadProgress.FitsMemory (progress : DownloadProgress) : Prop :=
  4 * progress.completedChunks.length < 2 ^ 62

def ShareState.FitsMemory (state : ShareState) : Prop :=
  4 * state.completedChunks.length < 2 ^ 62 ∧ ∀ dir ∈ state.outputDir, pathSize dir < 2 ^ 62

def CompactDownloadProgress.FitsMemory (compact : CompactDownloadProgress) : Prop :=
  compact.completedBitmap.length < 2 ^ 62

def CompactShareState.FitsMemory (compact : CompactShareState) : Prop :=
  compact.completedBitmap.length < 2 ^ 62 ∧ ∀ dir ∈ compact.outputDir, pathSize dir < 2 ^ 62

/-- A bitmap has a byte for every eight indices up to the largest. -/
theorem length_encodeCompletedBitmap_lt (chunks : List UInt32) :
    (encodeCompletedBitmap chunks).length < 2 ^ 62 := by
  unfold encodeCompletedBitmap
  split
  · simp
  · rename_i maxIndex largest
    have length_foldl (bitmap : Bytes) :
        (chunks.foldl (fun bitmap index => setBit bitmap index.toNat) bitmap).length =
          bitmap.length := by
      clear largest
      induction chunks generalizing bitmap with
      | nil => rfl
      | cons index chunks ih => rw [List.foldl_cons, ih, length_setBit]
    have bound := maxIndex.toNat_lt
    rw [length_foldl, List.length_replicate]
    omega

/-- The compact form keeps the normal form of a progress. -/
theorem intoProgress_fromProgress {progress : DownloadProgress}
    (few : progress.completedChunks.length < 2 ^ 64) :
    (CompactDownloadProgress.fromProgress progress).intoProgress =
      .new progress.shareId progress.completedChunks := by
  simp only [CompactDownloadProgress.intoProgress, CompactDownloadProgress.fromProgress,
    take_decodeCompletedBitmap few, DownloadProgress.new, normalizeChunkList_idem]

/-- The compact form keeps the normal form of a state. -/
theorem intoState_fromState {state : ShareState}
    (few : state.completedChunks.length < 2 ^ 64) :
    (CompactShareState.fromState state).intoState =
      .new state.shareId state.mode state.outputDir state.completedChunks := by
  simp only [CompactShareState.intoState, CompactShareState.fromState,
    take_decodeCompletedBitmap few, ShareState.new, normalizeChunkList_idem]

theorem decodeProgress_of_compact {bincode : RecordBincode} {payload : Bytes}
    {compact : CompactDownloadProgress}
    (decoded : bincode.progress.decodeFromSlice payload = some (compact, payload.length)) :
    decodeProgress bincode (compactProgressMagic ++ payload) = .ok compact.intoProgress := by
  rw [decodeProgress, stripPrefix_append]
  dsimp only
  rw [decodeExact_eq_ok.mpr decoded]
  rfl

theorem decodeState_of_compact {bincode : RecordBincode} {payload : Bytes}
    {compact : CompactShareState}
    (decoded : bincode.state.decodeFromSlice payload = some (compact, payload.length)) :
    decodeState bincode (compactStateMagic ++ payload) = .ok compact.intoState := by
  rw [decodeState, stripPrefix_append]
  dsimp only
  rw [decodeExact_eq_ok.mpr decoded]
  rfl

/-- Ordered progress is read back as it is. -/
theorem decodeProgress_of_encodeProgress {bincode : RecordBincode}
    (roundTrip : bincode.progress.RoundTrip) {progress : DownloadProgress}
    (ordered : progress.Ordered) {bytes : Bytes}
    (encoded : encodeProgress bincode progress = some bytes) :
    decodeProgress bincode bytes = .ok progress := by
  obtain ⟨payload, written, rfl⟩ : ∃ payload,
      bincode.progress.encodeToVec (.fromProgress progress) = some payload ∧
        compactProgressMagic ++ payload = bytes := by
    simpa [encodeProgress, encodeWithMagic, Option.bind_eq_some_iff] using encoded
  rw [decodeProgress_of_compact (roundTrip _ _ written),
    intoProgress_fromProgress ordered.length_lt, DownloadProgress.new,
    ordered.normalizeChunkList_eq]

/-- A state with ordered chunks is read back as it is. -/
theorem decodeState_of_encodeState {bincode : RecordBincode}
    (roundTrip : bincode.state.RoundTrip) {state : ShareState}
    (ordered : StrictlyOrdered state.completedChunks) {bytes : Bytes}
    (encoded : encodeState bincode state = some bytes) :
    decodeState bincode bytes = .ok state := by
  obtain ⟨payload, written, rfl⟩ : ∃ payload,
      bincode.state.encodeToVec (.fromState state) = some payload ∧
        compactStateMagic ++ payload = bytes := by
    simpa [encodeState, encodeWithMagic, Option.bind_eq_some_iff] using encoded
  rw [decodeState_of_compact (roundTrip _ _ written), intoState_fromState ordered.length_lt,
    ShareState.new, ordered.normalizeChunkList_eq]

/-- What is written of a record is read back as its normal form. -/
theorem compactRecords_roundTrip (bincode : RecordBincode)
    (progress_undoes : bincode.progress.Undoes CompactDownloadProgress.FitsMemory)
    (state_undoes : bincode.state.Undoes CompactShareState.FitsMemory) :
    (∀ progress : DownloadProgress, progress.FitsMemory →
      ∃ bytes, encodeProgress bincode progress = some bytes ∧
        decodeProgress bincode bytes = .ok (.new progress.shareId progress.completedChunks)) ∧
    ∀ state : ShareState, state.FitsMemory →
      ∃ bytes, encodeState bincode state = some bytes ∧
        decodeState bincode bytes =
          .ok (.new state.shareId state.mode state.outputDir state.completedChunks) := by
  constructor
  · intro progress fits
    have few : progress.completedChunks.length < 2 ^ 64 := by
      unfold DownloadProgress.FitsMemory at fits
      omega
    obtain ⟨payload, encoded, decoded⟩ := progress_undoes (.fromProgress progress)
      (length_encodeCompletedBitmap_lt progress.completedChunks)
    refine ⟨compactProgressMagic ++ payload, by simp [encodeProgress, encodeWithMagic, encoded], ?_⟩
    rw [decodeProgress_of_compact decoded, intoProgress_fromProgress few]
  · intro state fits
    have few : state.completedChunks.length < 2 ^ 64 := by
      have := fits.1
      omega
    obtain ⟨payload, encoded, decoded⟩ := state_undoes (.fromState state)
      ⟨length_encodeCompletedBitmap_lt state.completedChunks, fits.2⟩
    refine ⟨compactStateMagic ++ payload, by simp [encodeState, encodeWithMagic, encoded], ?_⟩
    rw [decodeState_of_compact decoded, intoState_fromState few]

/-! ## The standard configuration -/

section Standard

/-- The position of a mode in its declaration. -/
def ShareMode.variantIndex : ShareMode → UInt32
  | .seeding => 0
  | .downloading => 1
  | .completed => 2
  | .paused => 3

def ShareMode.ofVariantIndex : UInt32 → Option ShareMode
  | 0 => some .seeding
  | 1 => some .downloading
  | 2 => some .completed
  | 3 => some .paused
  | _ => none

def shareModeCodec : ByteCodec ShareMode :=
  uint32.via (fun mode => some mode.variantIndex) ShareMode.ofVariantIndex (by
    intro mode image mapped
    obtain rfl : mode.variantIndex = image := by simpa using mapped
    cases mode <;> rfl)

/-- A path as the list of its names. -/
def pathCodec : ByteCodec PathBuf := list text

def compactProgressCodec : ByteCodec CompactDownloadProgress :=
  (pair shareIdCodec (pair uint64 (list byte))).via
    (fun compact => some (compact.shareId, compact.completedCount, compact.completedBitmap))
    (fun (shareId, completedCount, completedBitmap) =>
      some { shareId, completedCount, completedBitmap })
    (by
      intro compact image mapped
      obtain rfl := by simpa using mapped
      rfl)

def compactStateCodec : ByteCodec CompactShareState :=
  (pair shareIdCodec (pair shareModeCodec (pair (option pathCodec)
    (pair uint64 (list byte))))).via
    (fun compact => some (compact.shareId, compact.mode, compact.outputDir, compact.completedCount,
      compact.completedBitmap))
    (fun (shareId, mode, outputDir, completedCount, completedBitmap) =>
      some { shareId, mode, outputDir, completedCount, completedBitmap })
    (by
      intro compact image mapped
      obtain rfl := by simpa using mapped
      rfl)

def legacyProgressCodec : ByteCodec DownloadProgress :=
  (pair shareIdCodec (list uint32)).via
    (fun progress => some (progress.shareId, progress.completedChunks))
    (fun (shareId, completedChunks) => some { shareId, completedChunks })
    (by
      intro progress image mapped
      obtain rfl := by simpa using mapped
      rfl)

def legacyStateCodec : ByteCodec ShareState :=
  (pair shareIdCodec (pair shareModeCodec (pair (option pathCodec) (list uint32)))).via
    (fun state => some (state.shareId, state.mode, state.outputDir, state.completedChunks))
    (fun (shareId, mode, outputDir, completedChunks) =>
      some { shareId, mode, outputDir, completedChunks })
    (by
      intro state image mapped
      obtain rfl := by simpa using mapped
      rfl)

/-- The serialisation of the records, with paths as lists of names. -/
def recordBincode : RecordBincode where
  progress := .ofCodec compactProgressCodec
  state := .ofCodec compactStateCodec
  legacyProgress := .ofCodec legacyProgressCodec
  legacyState := .ofCodec legacyStateCodec

def compactProgressSize (compact : CompactDownloadProgress) : Nat :=
  32 + (varintSize compact.completedCount.toNat + listSize (fun _ => 1) compact.completedBitmap)

def compactStateSize (compact : CompactShareState) : Nat :=
  32 + (varintSize compact.mode.variantIndex.toNat + (optionSize pathSize compact.outputDir +
    (varintSize compact.completedCount.toNat + listSize (fun _ => 1) compact.completedBitmap)))

theorem sized_shareIdCodec : shareIdCodec.Sized fun _ => 32 := by
  unfold shareIdCodec newtypeCodec
  exact (sized_exact 32).via _ _ _

theorem sized_compactProgressCodec : compactProgressCodec.Sized compactProgressSize :=
  (sized_shareIdCodec.pair (sized_uint64.pair (sized_byte.list fun _ => Nat.one_pos))).via _ _ _

theorem varintSize_le (value : Nat) : varintSize value ≤ 9 := by
  unfold varintSize
  split_ifs <;> omega

theorem listSize_bytes (bytes : Bytes) :
    listSize (fun _ => 1) bytes = varintSize bytes.length + bytes.length := by
  simp [listSize]

theorem recordBincode_progress_undoes :
    recordBincode.progress.Undoes CompactDownloadProgress.FitsMemory := by
  intro compact fits
  refine Bincode.ofCodec_undoes sized_compactProgressCodec compact ?_
  have count := varintSize_le compact.completedCount.toNat
  have width := varintSize_le compact.completedBitmap.length
  unfold CompactDownloadProgress.FitsMemory at fits
  simp only [compactProgressSize, listSize_bytes]
  omega

theorem sized_pathCodec : pathCodec.Sized pathSize :=
  ((sized_byte.list fun _ => Nat.one_pos).via _ _ _).list fun name => by
    rw [listSize_bytes]
    have := varintSize_pos (utf8 name).length
    omega

theorem sized_shareModeCodec :
    shareModeCodec.Sized fun mode => varintSize mode.variantIndex.toNat :=
  sized_uint32.via _ _ _

theorem sized_compactStateCodec : compactStateCodec.Sized compactStateSize :=
  (sized_shareIdCodec.pair (sized_shareModeCodec.pair (sized_pathCodec.option.pair
    (sized_uint64.pair (sized_byte.list fun _ => Nat.one_pos))))).via _ _ _

theorem recordBincode_state_undoes :
    recordBincode.state.Undoes CompactShareState.FitsMemory := by
  intro compact fits
  refine Bincode.ofCodec_undoes sized_compactStateCodec compact ?_
  obtain ⟨bitmap_fits, path_fits⟩ := fits
  have mode := varintSize_le compact.mode.variantIndex.toNat
  have count := varintSize_le compact.completedCount.toNat
  have width := varintSize_le compact.completedBitmap.length
  have path : optionSize pathSize compact.outputDir ≤ 2 ^ 62 := by
    cases given : compact.outputDir with
    | none => simp [optionSize]
    | some dir =>
        have := path_fits dir given
        simp only [optionSize]
        omega
  rw [compactStateSize, listSize_bytes]
  omega

/-- Unsorted indices with a repetition and the largest index. -/
theorem compactRecords_roundTrip_unsorted :
    (∃ bytes, encodeProgress recordBincode
        { shareId := ⟨Vector.replicate 32 0⟩, completedChunks := [4294967295, 2, 9, 2] } =
          some bytes ∧
      decodeProgress recordBincode bytes =
        .ok (.new ⟨Vector.replicate 32 0⟩ [4294967295, 2, 9, 2])) ∧
    ∃ bytes, encodeState recordBincode
        { shareId := ⟨Vector.replicate 32 0⟩, mode := .paused, outputDir := none,
          completedChunks := [4294967295, 2, 9, 2] } = some bytes ∧
      decodeState recordBincode bytes =
        .ok (.new ⟨Vector.replicate 32 0⟩ .paused none [4294967295, 2, 9, 2]) := by
  obtain ⟨progress, state⟩ := compactRecords_roundTrip recordBincode recordBincode_progress_undoes
    recordBincode_state_undoes
  exact ⟨progress _ (show 4 * 4 < 2 ^ 62 by decide),
    state _ ⟨show 4 * 4 < 2 ^ 62 by decide, by simp⟩⟩

end Standard

end Etle
