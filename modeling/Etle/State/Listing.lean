import Etle.State.Library

/-!
# Listing and deleting shares

The library lists the directories it finds, keeps those that are named after a share and have a
descriptor, and reads the records of each.  An entry that is no share is passed over; a record that
cannot be read ends the listing.
-/

namespace Etle

/-! ## Share identifiers as text -/

/-- One hexadecimal digit. -/
def hexDigit (value : Nat) : Char :=
  if value < 10 then Char.ofNat ('0'.toNat + value) else Char.ofNat ('a'.toNat + (value - 10))

/-- A share identifier as text. -/
def ShareId.display (shareId : ShareId) : String :=
  String.ofList (shareId.bytes.toList.flatMap fun byte =>
    [hexDigit (byte.toNat / 16), hexDigit (byte.toNat % 16)])

/-- The value of a hexadecimal digit of either case. -/
def decodeHexNibble (digit : Char) : Option Nat :=
  if '0' ≤ digit ∧ digit ≤ '9' then
    some (digit.toNat - '0'.toNat)
  else if 'a' ≤ digit ∧ digit ≤ 'f' then
    some (digit.toNat - 'a'.toNat + 10)
  else if 'A' ≤ digit ∧ digit ≤ 'F' then
    some (digit.toNat - 'A'.toNat + 10)
  else
    none

/-- The bytes of pairs of hexadecimal digits. -/
def decodeHexPairs : List Char → Option (List UInt8)
  | [] => some []
  | high :: low :: rest => do
      let highValue ← decodeHexNibble high
      let lowValue ← decodeHexNibble low
      let later ← decodeHexPairs rest
      return UInt8.ofNat (16 * highValue + lowValue) :: later
  | [_] => none

/-- Read a share identifier.  The length is counted in characters: a text with a character outside
ASCII has no hexadecimal digits in its place and is refused either way. -/
def ShareId.fromStr (text : String) : Option ShareId :=
  if text.toList.length ≠ 64 then
    none
  else
    match decodeHexPairs text.toList with
    | none => none
    | some bytes =>
        if sized : bytes.toArray.size = 32 then some ⟨⟨bytes.toArray, sized⟩⟩ else none

theorem decodeHexNibble_hexDigit {value : Nat} (small : value < 16) :
    decodeHexNibble (hexDigit value) = some value := by
  have all : ∀ value : Fin 16, decodeHexNibble (hexDigit value) = some value.val := by decide
  exact all ⟨value, small⟩

theorem decodeHexPairs_digits (bytes : List UInt8) :
    decodeHexPairs (bytes.flatMap fun byte =>
      [hexDigit (byte.toNat / 16), hexDigit (byte.toNat % 16)]) = some bytes := by
  induction bytes with
  | nil => rfl
  | cons byte rest ih =>
      have bound : byte.toNat < 256 := byte.toNat_lt
      have high := decodeHexNibble_hexDigit (show byte.toNat / 16 < 16 by omega)
      have low := decodeHexNibble_hexDigit (show byte.toNat % 16 < 16 by omega)
      have whole : UInt8.ofNat (16 * (byte.toNat / 16) + byte.toNat % 16) = byte := by
        rw [Nat.div_add_mod, UInt8.ofNat_toNat]
      simp [decodeHexPairs, high, low, ih, whole, -UInt8.ofNat_add]

/-- A displayed share identifier reads back. -/
theorem fromStr_display (shareId : ShareId) : ShareId.fromStr shareId.display = some shareId := by
  obtain ⟨⟨bytes, sized⟩⟩ := shareId
  have length : (bytes.toList.flatMap fun byte =>
      [hexDigit (byte.toNat / 16), hexDigit (byte.toNat % 16)]).length = 64 := by
    simp [List.length_flatMap, sized]
  simp [ShareId.fromStr, ShareId.display, Vector.toList, length, decodeHexPairs_digits, sized]

/-! ## Listing -/

/-- An entry of the library directory; a name that is not valid text is `none`. -/
structure DirEntry where
  name : Option String
  isDir : Bool
  deriving DecidableEq

/-- A share of the local library. -/
structure LocalShareSummary where
  paths : LibraryPaths
  descriptor : EtleDescriptor
  progress : Option DownloadProgress
  state : Option ShareState
  hasSecret : Bool
  deriving DecidableEq

/-- The share an entry is named after. -/
def DirEntry.shareId (entry : DirEntry) : Option ShareId :=
  if entry.isDir then entry.name.bind ShareId.fromStr else none

/-- Read a record if its file exists. -/
def readIfFile {α : Type} (stored : Stored α) (read : Except FileError α) :
    Except FileError (Option α) :=
  if stored.isFile then read.map some else .ok none

/-- Read what the listing shows of a share. -/
def summarizeShare (prims : Primitives) (disk : Disk) (paths : LibraryPaths) :
    Except FileError LocalShareSummary := do
  let descriptor ← readDescriptor prims disk paths
  let progress ← readIfFile (disk paths).progress (readProgress disk paths)
  let state ← readIfFile (disk paths).state (readState disk paths)
  return { paths, descriptor, progress, state, hasSecret := (disk paths).secret.isFile }

/-- Read the shares among the entries, in their order. -/
def listEntries (prims : Primitives) (disk : Disk) (root : PathBuf) :
    List DirEntry → Except FileError (List LocalShareSummary)
  | [] => .ok []
  | entry :: rest =>
      match entry.shareId with
      | none => listEntries prims disk root rest
      | some shareId =>
          if (disk { root, shareId }).descriptor.isFile then do
            let share ← summarizeShare prims disk { root, shareId }
            let shares ← listEntries prims disk root rest
            return share :: shares
          else
            listEntries prims disk root rest

/-- By name, then by the text of the share identifier. -/
def LocalShareSummary.before (left right : LocalShareSummary) : Bool :=
  if left.descriptor.name = right.descriptor.name then
    left.descriptor.shareId.display ≤ right.descriptor.shareId.display
  else
    left.descriptor.name ≤ right.descriptor.name

/-- List the library; `none` stands for a library directory that does not exist. -/
def libraryList (prims : Primitives) (disk : Disk) (root : PathBuf)
    (directory : Option (List DirEntry)) : Except FileError (List LocalShareSummary) :=
  match directory with
  | none => .ok []
  | some entries =>
      (listEntries prims disk root entries).map fun shares =>
        shares.mergeSort LocalShareSummary.before

/-- Delete a share, and return whether it was there. -/
def libraryDelete (root : PathBuf) (shareId : ShareId) : OnDisk Bool := do
  if (← get) { root, shareId } |>.present then
    changeShare { root, shareId } fun _ => .absent
    return true
  else
    return false

end Etle
