import Etle.Crypto.Transparent
import Etle.File.Package

/-!
# Chunks of a package

The files of a layout are read one after another into one buffer, which becomes a chunk whenever it
is full.  Reads, files and chunks need not end at the same places.  What has been read is at any
time the data of the chunks followed by the buffer.
-/

namespace Etle

/-- A chunk of a package before encryption. -/
structure PlainChunk where
  index : UInt32
  data : Bytes
  deriving DecidableEq

/-- The chunks so far, the index of the next one, and the buffer, which has room left. -/
structure ChunkReader (chunkSize : Nat) where
  chunks : List PlainChunk
  index : UInt32
  chunkBuffer : Bytes
  room : chunkBuffer.length < chunkSize

/-- `index.checked_add(1)`, or an error. -/
def checkedNextIndex (index : UInt32) : Except FileError UInt32 :=
  if index.toNat + 1 < UInt32.size then .ok (index + 1) else .error .tooManyChunks

theorem checkedNextIndex_eq_ok {index next : UInt32} (checked : checkedNextIndex index = .ok next) :
    next.toNat = index.toNat + 1 := by
  unfold checkedNextIndex at checked
  split at checked
  · rename_i fits
    obtain rfl : index + 1 = next := by simpa using checked
    rw [UInt32.toNat_add, UInt32.toNat_one, Nat.mod_eq_of_lt fits]
  · cases checked

namespace ChunkReader

variable {chunkSize : Nat}

/-- Nothing has been read. -/
def start (positive : 0 < chunkSize) : ChunkReader chunkSize where
  chunks := []
  index := 0
  chunkBuffer := []
  room := positive

/-- The loop over what remains of one read.  Every turn takes at least one byte, so as many turns
as there are bytes are enough. -/
def fill : Nat → ChunkReader chunkSize → Bytes → Except FileError (ChunkReader chunkSize)
  | 0, reader, _ => .ok reader
  | _ + 1, reader, [] => .ok reader
  | turns + 1, reader, remaining => do
      let free := chunkSize - reader.chunkBuffer.length
      let take := min free remaining.length
      let chunkBuffer := reader.chunkBuffer ++ remaining.take take
      if full : chunkBuffer.length = chunkSize then
        let index ← checkedNextIndex reader.index
        fill turns
          { chunks := reader.chunks ++ [{ index := reader.index, data := chunkBuffer }]
            index
            chunkBuffer := []
            room := Nat.zero_lt_of_lt reader.room }
          (remaining.drop take)
      else
        fill turns
          { reader with
            chunkBuffer
            room := by
              have held := reader.room
              simp only [chunkBuffer, take, free, List.length_append, List.length_take] at full ⊢
              omega }
          (remaining.drop take)

/-- Read one file to its end. -/
def readSourceFile (io : PackageIo) (disk : PackageDisk) (reader : ChunkReader chunkSize)
    (sourceFile : PackageSourceFile) : Except FileError (ChunkReader chunkSize) := do
  let content ← io.openFile disk sourceFile.sourcePath
  let script := io.reading sourceFile.sourcePath content
  let reader ← script.reads.foldlM (fun reader read => reader.fill read.length read) reader
  match script.failure with
  | some kind => .error (.io kind)
  | none => .ok reader

/-- The chunks, with what is left in the buffer as the last one. -/
def finish (reader : ChunkReader chunkSize) : List PlainChunk :=
  if reader.chunkBuffer = [] then reader.chunks
  else reader.chunks ++ [{ index := reader.index, data := reader.chunkBuffer }]

end ChunkReader

/-- Cut the files of a layout into chunks. -/
def readPackageChunks (io : PackageIo) (disk : PackageDisk) (layout : PackageLayout)
    (chunkSize : Nat) : Except FileError (List PlainChunk) :=
  if positive : 0 < chunkSize then do
    let reader ← layout.files.foldlM (ChunkReader.readSourceFile io disk) (.start positive)
    .ok reader.finish
  else
    .error (.invalidChunkSize chunkSize)

namespace ChunkReader

variable {chunkSize : Nat} {reader next : ChunkReader chunkSize}

/-- The reader has taken this content: whole chunks, and the buffer after them. -/
structure HasRead (reader : ChunkReader chunkSize) (content : Bytes) : Prop where
  joined : reader.chunks.flatMap PlainChunk.data ++ reader.chunkBuffer = content
  full : ∀ chunk ∈ reader.chunks, chunk.data.length = chunkSize
  numbered : reader.chunks.map (fun chunk => chunk.index.toNat) = List.range reader.chunks.length
  index : reader.index.toNat = reader.chunks.length

/-- The bytes of one read are taken. -/
theorem HasRead.fill {turns : Nat} {content remaining : Bytes} (before : reader.HasRead content)
    (enough : remaining.length ≤ turns) (filled : reader.fill turns remaining = .ok next) :
    next.HasRead (content ++ remaining) := by
  induction turns generalizing reader content remaining with
  | zero =>
      obtain rfl : remaining = [] := List.eq_nil_of_length_eq_zero (by omega)
      obtain rfl : reader = next := by simpa [ChunkReader.fill] using filled
      simpa using before
  | succ turns ih =>
      cases remaining with
      | nil =>
          obtain rfl : reader = next := by simpa [ChunkReader.fill] using filled
          simpa using before
      | cons byte rest =>
          simp only [ChunkReader.fill] at filled
          have split := List.take_append_drop
            (min (chunkSize - reader.chunkBuffer.length) (byte :: rest).length) (byte :: rest)
          rw [← split, ← List.append_assoc]
          have shorter : ((byte :: rest).drop
              (min (chunkSize - reader.chunkBuffer.length) (byte :: rest).length)).length ≤
                turns := by
            have room := reader.room
            simp only [List.length_drop, List.length_cons] at enough ⊢
            omega
          split at filled
          · rename_i full
            obtain ⟨index, checked, filled⟩ := except_bind_eq_ok.mp filled
            refine ih ?_ shorter filled
            refine ⟨?_, ?_, ?_, ?_⟩
            · simp [← before.joined]
            · intro chunk member
              obtain earlier | rfl :=
                List.mem_append.mp member |>.imp_right List.mem_singleton.mp
              · exact before.full chunk earlier
              · exact full
            · simp [before.numbered, before.index, List.range_succ]
            · simp [checkedNextIndex_eq_ok checked, before.index]
          · refine ih ?_ shorter filled
            exact ⟨by simp [← before.joined], before.full, before.numbered, before.index⟩

/-- All of a file is taken. -/
theorem HasRead.readSourceFile {io : PackageIo} {disk : PackageDisk}
    {sourceFile : PackageSourceFile} {content : Bytes} {file : FileContent}
    (before : reader.HasRead content)
    (stored : disk.locate sourceFile.sourcePath = some (.file file))
    (read : reader.readSourceFile io disk sourceFile = .ok next) :
    next.HasRead (content ++ file.bytes) := by
  obtain ⟨bytes, opened, read⟩ := except_bind_eq_ok.mp read
  obtain rfl := openFile_eq_ok stored opened
  obtain ⟨last, folded, read⟩ := except_bind_eq_ok.mp read
  have taken := foldlM_invariant
    (fun reads (state : ChunkReader chunkSize) => state.HasRead (content ++ reads.flatten))
    (by
      intro reads state piece after held filled
      simpa using held.fill (Nat.le_refl _) filled)
    (by simpa using before) folded
  cases failed : (io.reading sourceFile.sourcePath file.bytes).failure with
  | some kind => simp [failed] at read
  | none =>
      obtain rfl : last = next := by simpa [failed] using read
      rwa [(io.reading sourceFile.sourcePath file.bytes).complete failed] at taken

/-- All the files of a layout are taken, one after another. -/
theorem HasRead.readSourceFiles {io : PackageIo} {disk : PackageDisk}
    {files : List PackageSourceFile} (before : reader.HasRead [])
    (stored : ∀ file ∈ files, ∃ content, disk.locate file.sourcePath = some (.file content))
    (read : files.foldlM (ChunkReader.readSourceFile io disk) reader = .ok next) :
    next.HasRead (files.flatMap fun file => disk.bytesAt file.sourcePath) := by
  have taken := foldlM_invariant
    (fun done (state : ChunkReader chunkSize) => done <+: files →
      state.HasRead (done.flatMap fun file => disk.bytesAt file.sourcePath))
    (by
      intro done state file after held read within
      have member : file ∈ files := within.subset (by simp)
      obtain ⟨content, located⟩ := stored file member
      have earlier := held ((List.prefix_append done [file]).trans within)
      simpa [disk.bytesAt_eq located] using earlier.readSourceFile located read)
    (by simpa using before) read
  exact taken (List.prefix_refl _)

end ChunkReader

/-- The chunks hold a content: they are numbered from zero, all but the last are full, and the last
is not empty. -/
structure CutInto (chunkSize : Nat) (content : Bytes) (chunks : List PlainChunk) : Prop where
  joined : chunks.flatMap PlainChunk.data = content
  numbered : chunks.map (fun chunk => chunk.index.toNat) = List.range chunks.length
  full : ∀ chunk ∈ chunks.dropLast, chunk.data.length = chunkSize
  last : ∀ chunk, chunks.getLast? = some chunk →
    chunk.data ≠ [] ∧ chunk.data.length ≤ chunkSize

/-- Finishing turns what has been read into chunks. -/
theorem ChunkReader.HasRead.finish {chunkSize : Nat} {reader : ChunkReader chunkSize}
    {content : Bytes} (read : reader.HasRead content) :
    CutInto chunkSize content reader.finish := by
  have positive : 0 < chunkSize := Nat.zero_lt_of_lt reader.room
  unfold ChunkReader.finish
  split
  · rename_i empty
    refine ⟨by simpa [empty] using read.joined, read.numbered, ?_, ?_⟩
    · intro chunk member
      exact read.full chunk (List.dropLast_subset _ member)
    · intro chunk found
      have whole := read.full chunk (List.mem_of_getLast? found)
      constructor
      · rintro empty
        rw [empty] at whole
        simp at whole
        omega
      · exact whole.le
  · rename_i rest
    refine ⟨by simpa using read.joined, ?_, ?_, ?_⟩
    · simp [read.numbered, read.index, List.range_succ]
    · intro chunk member
      exact read.full chunk (by simpa using member)
    · intro chunk found
      obtain rfl : { index := reader.index, data := reader.chunkBuffer } = chunk := by
        simpa using found
      exact ⟨rest, reader.room.le⟩

/-- A package was split faithfully: the entries are sorted by path and laid out end to end from
zero, the chunks are numbered and full up to a last one that is not empty, and each file is found in
their data at its own place. -/
structure SplitsFaithfully (disk : PackageDisk) (layout : PackageLayout) (chunkSize : Nat)
    (chunks : List PlainChunk) : Prop where
  sorted : (layout.files.map PackageSourceFile.sourcePath).Pairwise (· < ·)
  listed : ∀ path, path ∈ layout.files.map PackageSourceFile.sourcePath ↔
    ∃ content, disk.locate path = some (.file content)
  named : ∀ file ∈ layout.files, file.entry.path = disk.packagePath file.sourcePath
  first_offset : ∀ file, layout.files[0]? = some file → file.entry.offset = 0
  next_offset : ∀ (position : Nat) (file next : PackageSourceFile),
    layout.files[position]? = some file → layout.files[position + 1]? = some next →
      next.entry.offset.toNat = file.entry.offset.toNat + file.entry.size.toNat
  total : layout.totalSize.toNat = (layout.files.map fun file => file.entry.size.toNat).sum
  numbered : chunks.map (fun chunk => chunk.index.toNat) = List.range chunks.length
  full : ∀ chunk ∈ chunks.dropLast, chunk.data.length = chunkSize
  last : ∀ chunk, chunks.getLast? = some chunk →
    chunk.data ≠ [] ∧ chunk.data.length ≤ chunkSize
  length : (chunks.flatMap PlainChunk.data).length = layout.totalSize.toNat
  slices : ∀ file ∈ layout.files, ∃ content,
    disk.locate file.sourcePath = some (.file content) ∧
    ((chunks.flatMap PlainChunk.data).drop file.entry.offset.toNat).take file.entry.size.toNat =
      content.bytes

/-- What a layout and its chunks say is what was on disk, however the system cuts its reads. -/
theorem package_splits_faithfully (prims : Primitives) (collecting reading : PackageIo)
    (disk : PackageDisk) (chunkSize : Nat) (layout : PackageLayout) (chunks : List PlainChunk)
    (collected : collectPackageLayout prims collecting disk = .ok layout)
    (read : readPackageChunks reading disk layout chunkSize = .ok chunks) :
    SplitsFaithfully disk layout chunkSize chunks := by
  have describes := describes_of_collectPackageLayout collected
  have stored : ∀ file ∈ layout.files,
      ∃ content, disk.locate file.sourcePath = some (.file content) := fun file member =>
    (describes.listed file.sourcePath).mp (List.mem_map_of_mem member)
  have sized : ∀ file ∈ layout.files,
      (disk.bytesAt file.sourcePath).length = file.entry.size.toNat := by
    intro file member
    obtain ⟨content, located⟩ := stored file member
    rw [disk.bytesAt_eq located, (describes.recorded file member content located).1,
      content.toNat_len]
  have cut : CutInto chunkSize (layout.files.flatMap fun file => disk.bytesAt file.sourcePath)
      chunks := by
    unfold readPackageChunks at read
    split at read
    · obtain ⟨reader, folded, finished⟩ := except_bind_eq_ok.mp read
      obtain rfl := Except.ok.inj finished
      apply ChunkReader.HasRead.finish
      apply ChunkReader.HasRead.readSourceFiles _ stored folded
      exact ⟨rfl, by simp [ChunkReader.start], rfl, rfl⟩
    · cases read
  refine ⟨describes.sorted, describes.listed, describes.named, ?_, ?_, describes.total,
    cut.numbered, cut.full, cut.last, ?_, ?_⟩
  · intro file found
    exact UInt64.toNat_inj.mp (describes.endToEnd.first found)
  · intro position file next found found_next
    exact describes.endToEnd.next found found_next
  · rw [cut.joined, describes.total, List.length_flatMap]
    congr 1
    exact List.map_congr_left sized
  · intro file member
    obtain ⟨content, located⟩ := stored file member
    refine ⟨content, located, ?_⟩
    rw [cut.joined, ← disk.bytesAt_eq located]
    exact describes.endToEnd.slice sized member (show ([] : Bytes).length = 0 from rfl)

theorem flatten_singletons (content : Bytes) :
    (content.map fun byte => [byte]).flatten = content := by
  induction content with
  | nil => rfl
  | cons byte rest ih => simpa using ih

/-- A system on which nothing fails and which gives one byte to a read. -/
def steadyIo : PackageIo where
  failure _ _ := none
  reading _ content :=
    { reads := content.map fun byte => [byte]
      failure := none
      nonempty := by simp
      fits := by simp
      joined := by simp [flatten_singletons]
      complete := fun _ => flatten_singletons content }
  irregularLen _ := 0
  irregularContent _ := []

/-- Two files and a directory with a third one. -/
def nestedPackage : PackageDisk where
  input := ["tmp", "etle"]
  tree := .directory ["nested", "b.txt", "a.txt"] (by decide) fun name =>
    if name = "b.txt" then .file ⟨[98, 98], by decide⟩
    else if name = "a.txt" then .file ⟨[97, 97, 97], by decide⟩
    else .directory ["c.txt"] (by decide) fun _ => .file ⟨[99], by decide⟩

/-- The chunks of that package cross the boundaries of its files. -/
theorem package_splits_nested : ∃ layout chunks,
    chunks = [⟨0, [97, 97, 97, 98]⟩, ⟨1, [98, 99]⟩] ∧
      SplitsFaithfully nestedPackage layout 4 chunks := by
  refine ⟨((collectPackageLayout transparentPrimitives steadyIo nestedPackage).toOption).getD
      ⟨"", [], 0, []⟩, _, rfl, ?_⟩
  exact package_splits_faithfully transparentPrimitives steadyIo steadyIo nestedPackage 4 _ _
    (by decide +kernel) (by decide +kernel)

end Etle
