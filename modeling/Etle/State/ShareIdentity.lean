import Etle.Foundations.Unambiguous
import Etle.State.OneByteShare

/-!
# What a share identifier identifies

The bytes that are hashed into a share identifier determine every field of the descriptor but the
identifier itself: texts and lists are preceded by their lengths, and everything else has a fixed
width.  So two descriptors that are read under one identifier are equal, unless their hash inputs
collide.
-/

namespace Etle

/-- The fields of a descriptor that enter its identifier. -/
abbrev ShareFields :=
  UInt16 × String × UInt64 × UInt64 × CryptoSuite × List FileEntry × List ChunkMeta

/-- The hash input of the fields of a descriptor. -/
def ShareFields.input : ShareFields → Bytes
  | (version, name, totalSize, chunkSize, crypto, files, chunks) =>
      shareIdInput version name totalSize chunkSize crypto files chunks

/-- The length of a text fits the eight bytes that precede it. -/
abbrev TextFits (text : String) : Prop := (utf8 text).length < 2 ^ 64

/-- Every length in the fields fits the eight bytes that precede it. -/
def ShareFields.Fits : ShareFields → Prop
  | (_, name, _, _, _, files, chunks) =>
      TextFits name ∧ (files.length < 2 ^ 64 ∧ ∀ file ∈ files, TextFits file.path) ∧
        chunks.length < 2 ^ 64

/-- The fields of a descriptor. -/
def EtleDescriptor.fields (descriptor : EtleDescriptor) : ShareFields :=
  (descriptor.version, descriptor.name, descriptor.totalSize, descriptor.chunkSize,
    descriptor.crypto, descriptor.files, descriptor.chunks)

theorem unambiguous_hashString : Unambiguous hashString TextFits := by
  intro first second first_fits second_fits firstRest secondRest same
  simp only [hashString, List.append_assoc] at same
  obtain ⟨lengths, same⟩ := unambiguous_leBytes 8 first_fits second_fits same
  obtain ⟨texts, rest⟩ := List.append_inj same lengths
  exact ⟨utf8_injective texts, rest⟩

theorem unambiguous_fileEntry :
    Unambiguous FileEntry.hashInput fun file => TextFits file.path := by
  intro first second first_fits second_fits firstRest secondRest same
  obtain ⟨firstPath, firstSize, firstOffset, ⟨firstHash⟩⟩ := first
  obtain ⟨secondPath, secondSize, secondOffset, ⟨secondHash⟩⟩ := second
  simp only [FileEntry.hashInput, List.append_assoc] at same
  obtain ⟨rfl, afterPath⟩ := unambiguous_hashString first_fits second_fits same
  obtain ⟨rfl, afterSize⟩ := unambiguous_uint64 trivial trivial afterPath
  obtain ⟨rfl, afterOffset⟩ := unambiguous_uint64 trivial trivial afterSize
  obtain ⟨rfl, rest⟩ := unambiguous_vector 32 trivial trivial afterOffset
  exact ⟨rfl, rest⟩

theorem unambiguous_chunkMeta : Unambiguous ChunkMeta.hashInput fun _ => True := by
  intro first second _ _ firstRest secondRest same
  obtain ⟨firstIndex, firstPlain, firstEncrypted, ⟨firstNonce⟩, ⟨firstHash⟩⟩ := first
  obtain ⟨secondIndex, secondPlain, secondEncrypted, ⟨secondNonce⟩, ⟨secondHash⟩⟩ := second
  simp only [ChunkMeta.hashInput, List.append_assoc] at same
  obtain ⟨rfl, afterIndex⟩ := unambiguous_uint32 trivial trivial same
  obtain ⟨rfl, afterPlain⟩ := unambiguous_uint64 trivial trivial afterIndex
  obtain ⟨rfl, afterSizes⟩ := unambiguous_uint64 trivial trivial afterPlain
  obtain ⟨rfl, afterNonce⟩ := unambiguous_vector 24 trivial trivial afterSizes
  obtain ⟨rfl, rest⟩ := unambiguous_vector 32 trivial trivial afterNonce
  exact ⟨rfl, rest⟩

/-- The hash input determines the fields. -/
theorem fields_of_input {first second : ShareFields} (first_fits : first.Fits)
    (second_fits : second.Fits) (same : first.input = second.input) : first = second := by
  obtain ⟨firstVersion, firstName, firstTotal, firstChunk, firstCrypto, firstFiles, firstChunks⟩ :=
    first
  obtain ⟨secondVersion, secondName, secondTotal, secondChunk, secondCrypto, secondFiles,
    secondChunks⟩ := second
  obtain ⟨firstName_fits, firstFiles_fit, firstChunks_fit⟩ := first_fits
  obtain ⟨secondName_fits, secondFiles_fit, secondChunks_fit⟩ := second_fits
  cases firstCrypto
  cases secondCrypto
  simp only [ShareFields.input, shareIdInput, List.append_assoc] at same
  obtain ⟨rfl, afterVersion⟩ := unambiguous_uint16 trivial trivial (List.append_cancel_left same)
  obtain ⟨rfl, afterName⟩ := unambiguous_hashString firstName_fits secondName_fits afterVersion
  obtain ⟨rfl, afterTotal⟩ := unambiguous_uint64 trivial trivial afterName
  obtain ⟨rfl, afterSizes⟩ := unambiguous_uint64 trivial trivial afterTotal
  have listed := List.append_cancel_left afterSizes
  rw [← List.append_assoc, ← List.append_assoc (leBytes 8 secondFiles.length)] at listed
  obtain ⟨rfl, afterFiles⟩ := unambiguous_fileEntry.counted firstFiles_fit secondFiles_fit listed
  -- Nothing follows the chunks; an empty rest makes the last sequence like the others.
  rw [← List.append_nil (leBytes 8 firstChunks.length ++ _),
    ← List.append_nil (leBytes 8 secondChunks.length ++ _)] at afterFiles
  obtain ⟨rfl, -⟩ := unambiguous_chunkMeta.counted ⟨firstChunks_fit, fun _ _ => trivial⟩
    ⟨secondChunks_fit, fun _ _ => trivial⟩ afterFiles
  rfl

/-- A descriptor is its fields and its identifier. -/
theorem descriptor_of_fields {first second : EtleDescriptor} (fields : first.fields = second.fields)
    (ids : first.shareId = second.shareId) : first = second := by
  cases first
  cases second
  cases fields
  cases ids
  rfl

/-- The bytes hashed into a share identifier determine the fields they come from, and two
descriptors read under one identifier are equal when the hash tells their inputs apart. -/
theorem shareIdentity_unambiguous :
    Set.InjOn ShareFields.input {fields | fields.Fits} ∧
    ∀ (prims : Primitives) (firstDisk secondDisk : Disk) (firstPaths secondPaths : LibraryPaths)
      (first second : EtleDescriptor), firstPaths.shareId = secondPaths.shareId →
      readDescriptor prims firstDisk firstPaths = .ok first →
      readDescriptor prims secondDisk secondPaths = .ok second →
      first.fields.Fits → second.fields.Fits →
      prims.CollisionFree {first.fields.input, second.fields.input} → first = second := by
  refine ⟨fun first first_fits second second_fits same =>
    fields_of_input first_fits second_fits same, ?_⟩
  intro prims firstDisk secondDisk firstPaths secondPaths first second sameId firstRead secondRead
    first_fits second_fits collisionFree
  obtain ⟨-, first_owned, first_verified⟩ := readDescriptor_eq_ok firstRead
  obtain ⟨-, second_owned, second_verified⟩ := readDescriptor_eq_ok secondRead
  have first_hash : first.shareId.bytes = prims.blake3 first.fields.input :=
    congrArg ShareId.bytes (beq_iff_eq.mp first_verified)
  have second_hash : second.shareId.bytes = prims.blake3 second.fields.input :=
    congrArg ShareId.bytes (beq_iff_eq.mp second_verified)
  have ids : first.shareId = second.shareId := by rw [first_owned, second_owned, sameId]
  have hashes : prims.blake3 first.fields.input = prims.blake3 second.fields.input := by
    rw [← first_hash, ← second_hash, ids]
  have inputs := collisionFree (Set.mem_insert _ _) (Set.mem_insert_of_mem _ rfl) hashes
  exact descriptor_of_fields (fields_of_input first_fits second_fits inputs) ids

/-- A library of a seeder and one of a downloader that hold one descriptor. -/
theorem shareIdentity_of_one_byte_share :
    ∃ (disk : Disk) (shareId : ShareId) (first second : EtleDescriptor),
      readDescriptor transparentPrimitives disk { root := ["seeder"], shareId } = .ok first ∧
      readDescriptor transparentPrimitives disk { root := ["downloader"], shareId } = .ok second ∧
      first = second := by
  let descriptor := descriptorFromManifest transparentPrimitives (oneByteManifest [0])
  let disk : Disk := fun _ => { ShareDir.absent with descriptor := .value descriptor }
  have read (root : PathBuf) :
      readDescriptor transparentPrimitives disk { root, shareId := descriptor.shareId } =
        .ok descriptor :=
    readDescriptor_of_value rfl rfl (verifyShareId_descriptorFromManifest _ _)
  have fits : descriptor.fields.Fits := by
    refine ⟨by decide, ⟨by decide, ?_⟩, by decide⟩
    intro file member
    obtain rfl := List.mem_singleton.mp member
    exact (by decide : TextFits "sample.bin")
  refine ⟨disk, descriptor.shareId, descriptor, descriptor, read _, read _, ?_⟩
  exact shareIdentity_unambiguous.2 transparentPrimitives disk disk
    { root := ["seeder"], shareId := descriptor.shareId }
    { root := ["downloader"], shareId := descriptor.shareId } descriptor descriptor rfl (read _)
    (read _) fits fits (by simp [Primitives.CollisionFree])

end Etle
