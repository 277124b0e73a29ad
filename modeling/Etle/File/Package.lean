import Etle.File.Descriptor
import Etle.Foundations.DirTree
import Etle.Foundations.Pieces
import Etle.Protocol.Message
import Mathlib.Data.List.Sort
import Mathlib.Data.List.Lex
import Mathlib.Data.String.Basic

/-!
# Package layouts

The input of a package is a file or a directory tree.  The regular files of a tree are collected,
sorted by path and laid out end to end.  The system may fail at every access, and it decides how a
file is cut into reads.
-/

namespace Etle

/-- The content of a file, whose length fits 64 bits. -/
structure FileContent where
  bytes : Bytes
  bounded : bytes.length < UInt64.size

/-- The length of a file as its metadata gives it. -/
def FileContent.len (content : FileContent) : UInt64 := UInt64.ofNat content.bytes.length

theorem FileContent.toNat_len (content : FileContent) :
    content.len.toNat = content.bytes.length := by
  rw [len, UInt64.toNat_ofNat', Nat.mod_eq_of_lt content.bounded]

/-- What is on disk behind the path of a package input. -/
structure PackageDisk where
  input : PathBuf
  tree : DirTree String FileContent

/-- The node behind a path. -/
def PackageDisk.locate (disk : PackageDisk) (path : PathBuf) :
    Option (DirTree String FileContent) :=
  (disk.input.isPrefixOf? path).bind disk.tree.find

/-- The reads of a file up to its end or to an error, none of them empty or larger than the
buffer. -/
structure ReadScript (content : Bytes) where
  reads : List Bytes
  failure : Option ErrorKind
  nonempty : ∀ piece ∈ reads, piece ≠ []
  fits : ∀ piece ∈ reads, piece.length ≤ 64 * 1024
  joined : reads.flatten <+: content
  complete : failure = none → reads.flatten = content

/-- The accesses that can fail before anything is read. -/
inductive PackageAccess where
  | metadata
  | readDir
  | dirEntry
  | fileType
  | openFile
  deriving DecidableEq

/-- What the system decides: which accesses fail, how files are cut into reads, and what is reported
and read of a node that is neither a file nor a directory. -/
structure PackageIo where
  failure : PackageAccess → PathBuf → Option ErrorKind
  reading : PathBuf → (content : Bytes) → ReadScript content
  irregularLen : PathBuf → UInt64
  irregularContent : PathBuf → Bytes

section Accesses

variable (io : PackageIo) (disk : PackageDisk)

/-- An access that needs no node. -/
def PackageIo.access (kind : PackageAccess) (path : PathBuf) : Except FileError Unit :=
  match io.failure kind path with
  | some failure => .error (.io failure)
  | none => .ok ()

/-- An access to the node behind a path. -/
def PackageIo.node (kind : PackageAccess) (path : PathBuf) :
    Except FileError (DirTree String FileContent) := do
  io.access kind path
  match disk.locate path with
  | none => .error (.io .notFound)
  | some node => .ok node

/-- The length of a node as its metadata gives it. -/
def PackageIo.len (path : PathBuf) : DirTree String FileContent → UInt64
  | .file content => content.len
  | _ => io.irregularLen path

/-- Open a file; the result is what can be read of it. -/
def PackageIo.openFile (path : PathBuf) : Except FileError Bytes := do
  match ← io.node disk .openFile path with
  | .file content => .ok content.bytes
  | .directory _ _ _ => .error (.io .other)
  | .other => .ok (io.irregularContent path)

end Accesses

/-- A file of a package and where it is on disk. -/
structure PackageSourceFile where
  entry : FileEntry
  sourcePath : PathBuf
  deriving DecidableEq

/-- The files of a package in the order in which they are chunked. -/
structure PackageLayout where
  name : String
  rootPath : PathBuf
  totalSize : UInt64
  files : List PackageSourceFile
  deriving DecidableEq

/-- The files as a descriptor lists them. -/
def PackageLayout.descriptorFiles (layout : PackageLayout) : List FileEntry :=
  layout.files.map PackageSourceFile.entry

/-- The last component of a path, unless the path ends in the root or in a dot component. -/
def fileName (path : PathBuf) : String :=
  match path.getLast? with
  | none | some "/" | some "." | some ".." => "unnamed"
  | some name => name

/-- The components of a path below a root, joined by slashes. -/
def relativePackagePath (root path : PathBuf) : Except FileError String :=
  match root.isPrefixOf? path with
  | none => .error (.pathOutsideRoot path root)
  | some relative => .ok ("/".intercalate relative)

/-- `a.checked_add(b)` for sizes, or an error. -/
def checkedAddSize (offset size : UInt64) : Except FileError UInt64 :=
  if offset.toNat + size.toNat < UInt64.size then .ok (offset + size) else .error .packageTooLarge

section Collecting

variable (prims : Primitives) (io : PackageIo) (disk : PackageDisk)

/-- The hash of a file, fed read by read. -/
def hashFile (path : PathBuf) : Except FileError FileId := do
  let content ← io.openFile disk path
  let script := io.reading path content
  match script.failure with
  | some kind => .error (.io kind)
  | none => .ok (hashFileId prims script.reads.flatten)

/-- Append the regular files under a directory to a list. -/
def collectRegularFiles : DirTree String FileContent → PathBuf → List PathBuf →
    Except FileError (List PathBuf)
  | .directory names _ child, dir, output => do
      io.access .readDir dir
      names.forM fun name => io.access .dirEntry (dir ++ [name])
      let entries := names.insertionSort fun left right => dir ++ [left] ≤ dir ++ [right]
      entries.foldlM (fun output name => do
        io.access .fileType (dir ++ [name])
        match child name with
        | .directory _ _ _ => collectRegularFiles (child name) (dir ++ [name]) output
        | .file _ => .ok (output ++ [dir ++ [name]])
        | .other => .ok output) output
  -- reading something else as a directory is an error of the system
  | _, _, _ => .error (.io .other)

/-- The layout of a package of one file. -/
def collectSingleFileLayout (path : PathBuf) (size : UInt64) : Except FileError PackageLayout := do
  let name := fileName path
  let blake3Hash ← hashFile prims io disk path
  .ok {
    name
    rootPath := path
    totalSize := size
    files := [{ entry := { path := name, size, offset := 0, blake3Hash }, sourcePath := path }] }

/-- One turn of the loop that lays out the collected files. -/
def layOutFile (root : PathBuf) (laid : List PackageSourceFile × UInt64) (path : PathBuf) :
    Except FileError (List PackageSourceFile × UInt64) := do
  let (files, offset) := laid
  let node ← io.node disk .metadata path
  let size := io.len path node
  let packagePath ← relativePackagePath root path
  let blake3Hash ← hashFile prims io disk path
  let file : PackageSourceFile :=
    { entry := { path := packagePath, size, offset, blake3Hash }, sourcePath := path }
  let offset ← checkedAddSize offset size
  .ok (files ++ [file], offset)

/-- The layout of a directory. -/
def collectDirectoryLayout (root : PathBuf) (tree : DirTree String FileContent) :
    Except FileError PackageLayout := do
  let collected ← collectRegularFiles io tree root []
  let paths := collected.insertionSort (· ≤ ·)
  if paths = [] then .error .emptyPackage else
  let (files, totalSize) ← paths.foldlM (layOutFile prims io disk root) ([], 0)
  .ok { name := fileName root, rootPath := root, totalSize, files }

/-- The layout of the package behind the input path. -/
def collectPackageLayout : Except FileError PackageLayout := do
  let metadata ← io.node disk .metadata disk.input
  match metadata with
  | .file content => collectSingleFileLayout prims io disk disk.input content.len
  | .directory _ _ _ => collectDirectoryLayout prims io disk disk.input metadata
  | .other => .error (.invalidPackageInput disk.input)

end Collecting

section Layouts

variable {prims : Primitives} {io : PackageIo} {disk : PackageDisk}

/-- The paths on disk are the input path followed by a path in the tree. -/
theorem PackageDisk.locate_eq_some {path : PathBuf} {node : DirTree String FileContent} :
    disk.locate path = some node ↔
      ∃ relative, disk.input ++ relative = path ∧ disk.tree.find relative = some node := by
  simp [locate, Option.bind_eq_some_iff]

/-- The content of the file behind a path. -/
def PackageDisk.bytesAt (disk : PackageDisk) (path : PathBuf) : Bytes :=
  match disk.locate path with
  | some (.file content) => content.bytes
  | _ => []

theorem PackageDisk.bytesAt_eq (disk : PackageDisk) {path : PathBuf} {content : FileContent}
    (stored : disk.locate path = some (.file content)) : disk.bytesAt path = content.bytes := by
  simp [bytesAt, stored]

/-- The regular files under a directory are appended, in some order. -/
theorem perm_of_collectRegularFiles {tree : DirTree String FileContent} {dir : PathBuf}
    {output found : List PathBuf} (collected : collectRegularFiles io tree dir output = .ok found) :
    ∃ added, found = output ++ added ∧ added.Perm (tree.filePaths.map (dir ++ ·)) := by
  induction tree generalizing dir output found with
  | file content => simp [collectRegularFiles] at collected
  | other => simp [collectRegularFiles] at collected
  | directory names distinct child ih =>
      rw [collectRegularFiles] at collected
      obtain ⟨_, _, collected⟩ := except_bind_eq_ok.mp collected
      obtain ⟨_, _, collected⟩ := except_bind_eq_ok.mp collected
      have appended := foldlM_invariant
        (fun taken state => ∃ added, state = output ++ added ∧
          added.Perm ((taken.flatMap fun name => (child name).filePaths.map (name :: ·)).map
            (dir ++ ·)))
        (by
          rintro taken _ name next ⟨added, rfl, perm⟩ stepped
          obtain ⟨_, _, stepped⟩ := except_bind_eq_ok.mp stepped
          have below : ∃ more, next = output ++ added ++ more ∧
              more.Perm ((child name).filePaths.map (dir ++ [name] ++ ·)) := by
            cases node : child name with
            | file content => exact ⟨[dir ++ [name]], by simp_all, by simp [DirTree.filePaths]⟩
            | other => exact ⟨[], by simp_all, by simp [DirTree.filePaths]⟩
            | directory inner inner_distinct inner_child =>
                rw [← node]
                exact ih name (by simpa [node] using stepped)
          obtain ⟨more, rfl, more_perm⟩ := below
          refine ⟨added ++ more, by simp, ?_⟩
          simpa [Function.comp_def] using perm.append more_perm)
        ⟨[], by simp, by simp⟩ collected
      obtain ⟨added, rfl, perm⟩ := appended
      refine ⟨added, rfl, perm.trans ?_⟩
      exact ((List.perm_insertionSort _ names).flatMap_right _).map _

/-- What can be read of a file is its content. -/
theorem openFile_eq_ok {path : PathBuf} {bytes : Bytes} {content : FileContent}
    (stored : disk.locate path = some (.file content))
    (opened : io.openFile disk path = .ok bytes) : content.bytes = bytes := by
  obtain ⟨node, found, opened⟩ := except_bind_eq_ok.mp opened
  obtain ⟨_, _, found⟩ := except_bind_eq_ok.mp found
  obtain rfl : DirTree.file content = node := by simpa [stored] using found
  simpa using opened

/-- The hash of a file that was read to its end is the hash of its content. -/
theorem hashFile_eq_ok {path : PathBuf} {fileId : FileId} {content : FileContent}
    (stored : disk.locate path = some (.file content))
    (hashed : hashFile prims io disk path = .ok fileId) :
    fileId = hashFileId prims content.bytes := by
  obtain ⟨bytes, opened, hashed⟩ := except_bind_eq_ok.mp hashed
  obtain rfl := openFile_eq_ok stored opened
  cases failed : (io.reading path content.bytes).failure with
  | some kind => simp [failed] at hashed
  | none =>
      have whole := (io.reading path content.bytes).complete failed
      simpa [failed, whole, eq_comm] using hashed

/-- The path by which a package names a file on disk. -/
def PackageDisk.packagePath (disk : PackageDisk) (path : PathBuf) : String :=
  match disk.tree with
  | .file _ => fileName path
  | _ => "/".intercalate (path.drop disk.input.length)

/-- A layout lists every file on disk once, in the order of the paths and end to end, with its size
and its hash. -/
structure PackageLayout.Describes (prims : Primitives) (layout : PackageLayout)
    (disk : PackageDisk) : Prop where
  sorted : (layout.files.map PackageSourceFile.sourcePath).Pairwise (· < ·)
  listed : ∀ path, path ∈ layout.files.map PackageSourceFile.sourcePath ↔
    ∃ content, disk.locate path = some (.file content)
  endToEnd : LaidOut (fun file => file.entry.offset.toNat) (fun file => file.entry.size.toNat) 0
    layout.files
  total : layout.totalSize.toNat = (layout.files.map fun file => file.entry.size.toNat).sum
  named : ∀ file ∈ layout.files, file.entry.path = disk.packagePath file.sourcePath
  recorded : ∀ file ∈ layout.files, ∀ content,
    disk.locate file.sourcePath = some (.file content) →
      file.entry.size = content.len ∧ file.entry.blake3Hash = hashFileId prims content.bytes

/-- What the loop over the collected paths has laid out so far. -/
structure LaysOut (prims : Primitives) (disk : PackageDisk) (root : PathBuf)
    (taken : List PathBuf) (laid : List PackageSourceFile × UInt64) : Prop where
  paths : laid.1.map PackageSourceFile.sourcePath = taken
  endToEnd : LaidOut (fun file => file.entry.offset.toNat) (fun file => file.entry.size.toNat) 0
    laid.1
  total : laid.2.toNat = (laid.1.map fun file => file.entry.size.toNat).sum
  named : ∀ file ∈ laid.1, relativePackagePath root file.sourcePath = .ok file.entry.path
  recorded : ∀ file ∈ laid.1, ∀ content, disk.locate file.sourcePath = some (.file content) →
    file.entry.size = content.len ∧ file.entry.blake3Hash = hashFileId prims content.bytes

theorem checkedAddSize_eq_ok {offset size next : UInt64} :
    checkedAddSize offset size = .ok next → next.toNat = offset.toNat + size.toNat := by
  intro added
  unfold checkedAddSize at added
  split at added
  · rename_i fits
    obtain rfl : offset + size = next := by simpa using added
    rw [UInt64.toNat_add, Nat.mod_eq_of_lt fits]
  · cases added

/-- One turn of the loop lays out one more file. -/
theorem LaysOut.layOutFile {root path : PathBuf} {taken : List PathBuf}
    {laid next : List PackageSourceFile × UInt64} (before : LaysOut prims disk root taken laid)
    (stepped : layOutFile prims io disk root laid path = .ok next) :
    LaysOut prims disk root (taken ++ [path]) next := by
  obtain ⟨node, found, stepped⟩ := except_bind_eq_ok.mp stepped
  obtain ⟨packagePath, relative, stepped⟩ := except_bind_eq_ok.mp stepped
  obtain ⟨fileId, hashed, stepped⟩ := except_bind_eq_ok.mp stepped
  obtain ⟨offset, added, stepped⟩ := except_bind_eq_ok.mp stepped
  obtain rfl := Except.ok.inj stepped
  have added := checkedAddSize_eq_ok added
  refine ⟨by simp [before.paths], ?_, ?_, ?_, ?_⟩
  · apply before.endToEnd.append_singleton
    simpa using before.total
  · simp [added, before.total]
  · intro file member
    obtain earlier | rfl := List.mem_append.mp member |>.imp_right List.mem_singleton.mp
    · exact before.named file earlier
    · exact relative
  · intro file member content stored
    obtain earlier | rfl := List.mem_append.mp member |>.imp_right List.mem_singleton.mp
    · exact before.recorded file earlier content stored
    · refine ⟨?_, hashFile_eq_ok stored hashed⟩
      obtain ⟨_, _, found⟩ := except_bind_eq_ok.mp found
      obtain rfl : DirTree.file content = node := by simpa [stored] using found
      rfl

/-- The layout of a directory lists its files. -/
theorem describes_of_collectDirectoryLayout {names : List String} {distinct : names.Nodup}
    {child : String → DirTree String FileContent} {layout : PackageLayout}
    (directory : disk.tree = .directory names distinct child)
    (collected : collectDirectoryLayout prims io disk disk.input disk.tree = .ok layout) :
    layout.Describes prims disk := by
  obtain ⟨found, listed, collected⟩ := except_bind_eq_ok.mp collected
  obtain ⟨added, rfl, perm⟩ := perm_of_collectRegularFiles listed
  dsimp only at collected
  split at collected
  · cases collected
  obtain ⟨⟨files, totalSize⟩, folded, collected⟩ := except_bind_eq_ok.mp collected
  obtain rfl := Except.ok.inj collected
  have start : LaysOut prims disk disk.input [] ([], 0) :=
    ⟨rfl, trivial, rfl, by simp, by simp⟩
  have laid := foldlM_invariant (LaysOut prims disk disk.input)
    (fun _ _ _ _ before stepped => before.layOutFile stepped) start folded
  have sorted_perm : (files.map PackageSourceFile.sourcePath).Perm
      (disk.tree.filePaths.map (disk.input ++ ·)) := by
    rw [laid.paths]
    exact (List.perm_insertionSort _ _).trans (by simpa using perm)
  have once : (files.map PackageSourceFile.sourcePath).Nodup := by
    rw [sorted_perm.nodup_iff]
    exact disk.tree.nodup_filePaths.map fun first second same => List.append_cancel_left same
  refine ⟨?_, ?_, laid.endToEnd, laid.total, ?_, laid.recorded⟩
  · have sorted : (files.map PackageSourceFile.sourcePath).Pairwise (· ≤ ·) := by
      rw [laid.paths]
      exact List.pairwise_insertionSort _ _
    exact (sorted.and once).imp fun ordered => lt_of_le_of_ne ordered.1 ordered.2
  · intro path
    rw [sorted_perm.mem_iff, List.mem_map]
    simp only [DirTree.mem_filePaths, PackageDisk.locate_eq_some]
    constructor
    · rintro ⟨relative, ⟨content, stored⟩, rfl⟩
      exact ⟨content, relative, rfl, stored⟩
    · rintro ⟨content, relative, rfl, stored⟩
      exact ⟨relative, ⟨content, stored⟩, rfl⟩
  · intro file member
    have named := laid.named file member
    unfold relativePackagePath at named
    split at named
    · cases named
    · rename_i relative below
      obtain below : disk.input ++ relative = file.sourcePath := by simpa using below
      rw [← Except.ok.inj named, PackageDisk.packagePath, directory, ← below]
      simp

/-- A layout describes what was on disk. -/
theorem describes_of_collectPackageLayout {layout : PackageLayout}
    (collected : collectPackageLayout prims io disk = .ok layout) :
    layout.Describes prims disk := by
  obtain ⟨node, found, collected⟩ := except_bind_eq_ok.mp collected
  obtain ⟨_, _, found⟩ := except_bind_eq_ok.mp found
  have located : disk.locate disk.input = some disk.tree :=
    PackageDisk.locate_eq_some.mpr ⟨[], by simp, by simp⟩
  obtain rfl : disk.tree = node := by simpa [located] using found
  cases tree : disk.tree with
  | other => simp [tree] at collected
  | directory names distinct child =>
      exact describes_of_collectDirectoryLayout tree (by simpa [tree] using collected)
  | file content =>
      rw [tree] at collected located
      obtain ⟨fileId, hashed, collected⟩ := except_bind_eq_ok.mp collected
      obtain rfl := Except.ok.inj collected
      refine ⟨by simp, ?_, ⟨rfl, trivial⟩, by simp, ?_, ?_⟩
      · intro path
        simp only [List.map_cons, List.map_nil, List.mem_singleton]
        constructor
        · rintro rfl
          exact ⟨content, located⟩
        · rintro ⟨other, stored⟩
          obtain ⟨relative, rfl, found⟩ := PackageDisk.locate_eq_some.mp stored
          rw [tree] at found
          cases relative with
          | nil => exact List.append_nil _
          | cons name rest => cases found
      · simp [PackageDisk.packagePath, tree]
      · simp only [List.mem_singleton, forall_eq]
        intro other stored
        obtain rfl : content = other := by simpa [located] using stored
        exact ⟨rfl, hashFile_eq_ok located hashed⟩

end Layouts

end Etle
