import Etle.Protocol.Message

/-!
# Where downloads go

A download without an output of its own is reconstructed into a temporary file and then renamed to
the name the manifest gives.  The temporary file belongs to the daemon, not to the download.
-/

namespace Etle

/-- The directory of finished downloads. -/
def outputDirName : String := "output"

/-- The directory of finished downloads under a library root. -/
def defaultDownloadOutputDir (libraryRoot : PathBuf) : PathBuf := libraryRoot ++ [outputDirName]

/-- The temporary file of every download without an output of its own. -/
def temporaryDownloadOutputPath (libraryRoot : PathBuf) (processId : Nat) : PathBuf :=
  defaultDownloadOutputDir libraryRoot ++
    [".etle-download-daemon-" ++ toString processId ++ ".part"]

/-- The last component of a path given as text, unless the path ends in `..` or has none. -/
def pathFileName (path : String) : Option String :=
  match ((path.toList.splitOn '/').map String.ofList).filter
      (fun component => component ≠ "" ∧ component ≠ ".") |>.getLast? with
  | none | some ".." => none
  | some name => some name

/-- The last component of a file name that a manifest gives. -/
def safeOutputFileName (fileName : String) : String :=
  match pathFileName fileName with
  | none | some "" => "downloaded-file"
  | some name => name

/-- Where a download goes unless there is a file already. -/
def defaultDownloadOutputPath (libraryRoot : PathBuf) (manifestFileName : String) : PathBuf :=
  defaultDownloadOutputDir libraryRoot ++ [safeOutputFileName manifestFileName]

/-- A file name without its extension, and the extension after its last dot.  A dot in front does
not start an extension. -/
def splitExtension (name : String) : String × Option String :=
  if name = ".." then (name, none)
  else
    let (extension, rest) := name.toList.reverse.span (· ≠ '.')
    match rest with
    | [] | [_] => (name, none)
    | _ :: stem => (String.ofList stem.reverse, some (String.ofList extension.reverse))

/-- The name of a copy. -/
def copyName (name : String) (copyIndex : Nat) : String :=
  match splitExtension name with
  | (stem, some extension) => stem ++ " (" ++ toString copyIndex ++ ")." ++ extension
  | (stem, none) => stem ++ " (" ++ toString copyIndex ++ ")"

/-- The first copy from an index on, among so many, whose path is free. -/
def firstFreeCopy (isThere : PathBuf → Bool) (parent : PathBuf) (name : String) (copyIndex : Nat) :
    Nat → Option PathBuf
  | 0 => none
  | fuel + 1 =>
      if isThere (parent ++ [copyName name copyIndex]) then
        firstFreeCopy isThere parent name (copyIndex + 1) fuel
      else
        some (parent ++ [copyName name copyIndex])

/-- A path that no file has: the given one, or the first copy of it.  Copies are numbered in 32
bits. -/
def uniqueOutputPath (isThere : PathBuf → Bool) (path : PathBuf) : Option PathBuf :=
  if isThere path then
    firstFreeCopy isThere path.dropLast (path.getLast?.getD "downloaded-file") 1 (2 ^ 32 - 1)
  else
    some path

theorem free_of_firstFreeCopy {isThere : PathBuf → Bool} {parent : PathBuf} {name : String}
    {copyIndex fuel : Nat} {found : PathBuf}
    (first : firstFreeCopy isThere parent name copyIndex fuel = some found) :
    isThere found = false := by
  induction fuel generalizing copyIndex with
  | zero => cases first
  | succ fuel ih =>
      rw [firstFreeCopy] at first
      split at first
      · exact ih first
      · rename_i free
        obtain rfl := by simpa using first
        simpa using free

/-- The path that is chosen has no file. -/
theorem free_of_uniqueOutputPath {isThere : PathBuf → Bool} {path found : PathBuf}
    (unique : uniqueOutputPath isThere path = some found) : isThere found = false := by
  unfold uniqueOutputPath at unique
  split at unique
  · exact free_of_firstFreeCopy unique
  · rename_i free
    obtain rfl := by simpa using unique
    simpa using free

end Etle
