import Etle.Ipc.ListableLibrary
import Etle.State.RecordFiles

/-!
# Failing writes leave the library listable

On Unix a record is replaced as a whole or not at all.  So whichever tasks write, in any order, and
whichever of their calls to the file system fail, also in the middle of an initialisation, the files
show libraries in which every record can be read.
-/

namespace Etle

open ByteCodec
open EStateM (Keeps)

/-! ## The standard configuration -/

section Standard

theorem fileId_mk_bytes (fileId : FileId) : FileId.mk fileId.bytes = fileId := rfl

def fileEntryCodec : ByteCodec FileEntry :=
  (pair text (pair uint64 (pair uint64 (newtypeCodec FileId.bytes FileId.mk fileId_mk_bytes)))).via
    (fun entry => some (entry.path, entry.size, entry.offset, entry.blake3Hash))
    (fun image => some {
      path := image.1, size := image.2.1, offset := image.2.2.1, blake3Hash := image.2.2.2 })
    (by
      intro entry image mapped
      obtain rfl := by simpa using mapped
      rfl)

/-- The only suite is the first variant. -/
def cryptoSuiteCodec : ByteCodec CryptoSuite :=
  uint32.via (fun | .xChaCha20Poly1305Blake3X25519V1 => some 0)
    (fun index => if index = 0 then some .xChaCha20Poly1305Blake3X25519V1 else none) (by
      rintro ⟨⟩ image mapped
      obtain rfl : 0 = image := by simpa using mapped
      rfl)

def descriptorCodec : ByteCodec EtleDescriptor :=
  (pair uint16 (pair text (pair shareIdCodec (pair uint64 (pair uint64 (pair cryptoSuiteCodec
    (pair (list fileEntryCodec) (list chunkMetaCodec)))))))).via
    (fun descriptor => some (descriptor.version, descriptor.name, descriptor.shareId,
      descriptor.totalSize, descriptor.chunkSize, descriptor.crypto, descriptor.files,
      descriptor.chunks))
    (fun (version, name, shareId, totalSize, chunkSize, crypto, files, chunks) =>
      some { version, name, shareId, totalSize, chunkSize, crypto, files, chunks })
    (by
      intro descriptor image mapped
      obtain rfl := by simpa using mapped
      rfl)

def secretCodec : ByteCodec EtleSecret :=
  (pair shareIdCodec (newtypeCodec SymmetricKey.bytes SymmetricKey.mk fun _ => rfl)).via
    (fun secret => some (secret.shareId, secret.fileKey))
    (fun (shareId, fileKey) => some { shareId, fileKey })
    (by
      intro secret image mapped
      obtain rfl := by simpa using mapped
      rfl)

def fileBincode : FileBincode where
  descriptor := .ofCodec descriptorCodec
  secret := .ofCodec secretCodec
  records := recordBincode

theorem fileBincode_roundTrips : fileBincode.RoundTrips where
  descriptor := Bincode.ofCodec_roundTrip _
  secret := Bincode.ofCodec_roundTrip _
  progress := Bincode.ofCodec_roundTrip _
  state := Bincode.ofCodec_roundTrip _

end Standard

/-! ## Writes -/

/-- A write of whole files into the directory of a share, with the calls that fail. -/
inductive ShareWrite where
  | libraryInit (calls : InitCalls) (root : PathBuf) (manifest : Manifest) (fileKey : SymmetricKey)
      (mode : ShareMode) (outputDir : Option PathBuf)
  | writeDescriptor (call : FileCall) (paths : LibraryPaths) (manifest : Manifest)
  | writeSecret (call : FileCall) (paths : LibraryPaths) (secret : EtleSecret)
  | writeProgress (call : FileCall) (paths : LibraryPaths)
      (progress : { progress : DownloadProgress // progress.Ordered })
  | writeState (call : FileCall) (paths : LibraryPaths) (mode : ShareMode)
      (outputDir : Option PathBuf) (progress : DownloadProgress)
  | writeChunk (call : FileCall) (paths : LibraryPaths) (chunk : EncryptedChunk)

/-- The files are replaced on Unix. -/
def ShareWrite.OnUnix : ShareWrite → Prop
  | .libraryInit calls _ _ _ _ _ => calls.OnUnix
  | .writeDescriptor call _ _ | .writeSecret call _ _ | .writeProgress call _ _
  | .writeState call _ _ _ _ | .writeChunk call _ _ => call.replace.platform = .unix

/-- Write to the files. -/
def ShareWrite.run (prims : Primitives) (bincode : FileBincode) : ShareWrite → OnShareFiles Unit
  | .libraryInit calls root manifest fileKey mode outputDir => do
      let _ ← OnShareFiles.libraryInit bincode calls root (descriptorFromManifest prims manifest)
        fileKey mode outputDir
  | .writeDescriptor call paths manifest =>
      OnShareFiles.writeDescriptor bincode call paths (descriptorFromManifest prims manifest)
  | .writeSecret call paths secret => OnShareFiles.writeSecret bincode call paths secret
  | .writeProgress call paths progress =>
      OnShareFiles.writeProgress bincode call paths progress
  | .writeState call paths mode outputDir progress =>
      OnShareFiles.writeState bincode call paths (.fromProgress mode outputDir progress)
  | .writeChunk call paths chunk => OnShareFiles.writeChunk call paths chunk

/-- Writes one after another, each of which may fail. -/
def shareWrites (prims : Primitives) (bincode : FileBincode) :
    Machine (FileSystem FilePath) ShareWrite where
  step files write := some ((write.run prims bincode).run files).final

/-- The files show sound libraries. -/
def ShowsSound (prims : Primitives) (bincode : FileBincode) (files : FileSystem FilePath) : Prop :=
  ∃ disk, ShowsShares bincode files disk ∧ SoundLibrary prims disk

theorem ordered_fromProgress (mode : ShareMode) (outputDir : Option PathBuf)
    (progress : DownloadProgress) :
    StrictlyOrdered (ShareState.fromProgress mode outputDir progress).completedChunks :=
  strictlyOrdered_normalizeChunkList _

section

variable {prims : Primitives} {bincode : FileBincode}

/-- What a write to a file is on the shares, it is on what the files show. -/
theorem keeps_showsSound {concrete : OnShareFiles Unit} {abstract : OnDisk Unit}
    (refines : EStateM.Refines (ShowsShares bincode) concrete abstract)
    (keeps : Keeps (SoundLibrary prims) abstract) : Keeps (ShowsSound prims bincode) concrete :=
  refines.keeps keeps

/-- An initialisation may stop after any of its writes. -/
theorem keeps_showsSound_libraryInit (roundTrips : bincode.RoundTrips) {calls : InitCalls}
    (unix : calls.OnUnix) (root : PathBuf) (manifest : Manifest) (fileKey : SymmetricKey)
    (mode : ShareMode) (outputDir : Option PathBuf) :
    Keeps (ShowsSound prims bincode) (OnShareFiles.libraryInit bincode calls root
      (descriptorFromManifest prims manifest) fileKey mode outputDir) := by
  have ordered := ordered_initialProgress (descriptorFromManifest prims manifest) mode
  have created : Keeps (ShowsSound prims bincode) (OnShareFiles.createShareDirs calls) :=
    keeps_showsSound (@OnShareFiles.refines_createShareDirs bincode
      { root, shareId := (descriptorFromManifest prims manifest).shareId } calls)
      keeps_sound_createShareDirs
  refine .bind created fun _ => .bind ?_ fun _ => .bind ?_ fun _ => .bind ?_ fun _ =>
    .bind ?_ fun _ => .pure _
  · exact keeps_showsSound
      (OnShareFiles.refines_writeDescriptor unix.descriptor roundTrips.descriptor _)
      (keeps_sound_writeDescriptor manifest)
  · exact keeps_showsSound (OnShareFiles.refines_writeSecret unix.secret roundTrips.secret _)
      (keeps_sound_writeSecret _)
  · exact keeps_showsSound
      (OnShareFiles.refines_writeProgress unix.progress roundTrips.progress ordered)
      (keeps_sound_writeProgress _)
  · exact keeps_showsSound
      (OnShareFiles.refines_writeState unix.state roundTrips.state
        (ordered_fromProgress mode outputDir _))
      (keeps_sound_writeState _)

/-- A write keeps the libraries sound whether or not it fails. -/
theorem ShareWrite.keeps (roundTrips : bincode.RoundTrips) {write : ShareWrite}
    (unix : write.OnUnix) : Keeps (ShowsSound prims bincode) (write.run prims bincode) := by
  unfold ShareWrite.run
  cases write with
  | libraryInit calls root manifest fileKey mode outputDir =>
      exact .bind (keeps_showsSound_libraryInit roundTrips unix _ _ _ _ _) fun _ => .pure _
  | writeDescriptor call paths manifest =>
      exact keeps_showsSound
        (OnShareFiles.refines_writeDescriptor unix roundTrips.descriptor _)
        (keeps_sound_writeDescriptor manifest)
  | writeSecret call paths secret =>
      exact keeps_showsSound (OnShareFiles.refines_writeSecret unix roundTrips.secret secret)
        (keeps_sound_writeSecret secret)
  | writeProgress call paths progress =>
      exact keeps_showsSound
        (OnShareFiles.refines_writeProgress unix roundTrips.progress progress.2)
        (keeps_sound_writeProgress _)
  | writeState call paths mode outputDir progress =>
      exact keeps_showsSound
        (OnShareFiles.refines_writeState unix roundTrips.state (ordered_fromProgress _ _ _))
        (keeps_sound_writeState _)
  | writeChunk call paths chunk =>
      exact keeps_showsSound (OnShareFiles.refines_writeChunk unix chunk)
        (keeps_sound_writeChunk chunk)

/-- Without a file there is no share. -/
theorem showsSound_empty : ShowsSound prims bincode .empty :=
  ⟨fun _ => .absent, fun _ => ⟨rfl, rfl, rfl, rfl, fun _ => rfl⟩,
    fun _ => ShareDir.sound_absent _⟩

end

/-- On Unix, after every sequence of writes into share directories, in whatever order tasks make
them and each of which may fail at any call to the file system, the files show libraries in which no
record hides a share. -/
theorem shareWrites_stay_listable (prims : Primitives) (bincode : FileBincode)
    (roundTrips : bincode.RoundTrips) (start final : FileSystem FilePath)
    (writes : List ShareWrite) (unix : ∀ write ∈ writes, write.OnUnix)
    (sound : ShowsSound prims bincode start)
    (ran : (shareWrites prims bincode).run start writes = some final) :
    ∃ disk, ShowsShares bincode final disk ∧ NothingHidden prims disk := by
  have kept : ShowsSound prims bincode final := by
    refine Machine.invariant_of_obeys ?_ sound (Machine.obeys_of_forall unix start) ran
    rintro files write next holds on_unix ⟨⟩
    exact ShareWrite.keeps roundTrips on_unix files holds
  obtain ⟨disk, shows, disk_sound⟩ := kept
  exact ⟨disk, shows, disk_sound.nothingHidden⟩

/-- A write of a file on Unix whose rename may fail. -/
def unixCall (rename : Option ErrorKind) : FileCall where
  createDirAll := none
  replace := {
    platform := .unix, processId := 4242, now := some 1700000000, createDirAll := none
    createNew := none, writeAll := none, syncAll := none, metadata := none, removeOld := none
    rename }

/-- An initialisation that stops after the file key. -/
def stoppedInit : InitCalls where
  chunksDir := none
  outputDir := none
  descriptor := unixCall none
  secret := unixCall none
  progress := unixCall (some .other)
  state := unixCall none

def stoppedWrites : List ShareWrite :=
  [.libraryInit stoppedInit ["library"] (oneByteManifest [0]) sampleKey .downloading none]

/-- An initialisation that stops half-way hides nothing. -/
theorem shareWrites_stay_listable_after_stopped_init :
    ∃ final, (shareWrites transparentPrimitives fileBincode).run .empty stoppedWrites =
        some final ∧
      ∃ disk, ShowsShares fileBincode final disk ∧ NothingHidden transparentPrimitives disk := by
  have unix : ∀ write ∈ stoppedWrites, write.OnUnix := by
    intro write member
    obtain rfl := List.mem_singleton.mp member
    exact ⟨rfl, rfl, rfl, rfl⟩
  exact ⟨_, rfl, shareWrites_stay_listable transparentPrimitives fileBincode fileBincode_roundTrips
    .empty _ stoppedWrites unix showsSound_empty rfl⟩

end Etle
