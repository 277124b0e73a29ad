import Etle.Discovery.Wire

/-!
# Numbers and addresses as text

How the standard library reads the values of a configuration file: unsigned numbers, IPv4
addresses, and socket addresses of either kind.  A scanner that refuses leaves its text untouched.
-/

namespace Etle

/-! ## Digits -/

/-- `char::to_digit` -/
def toDigit (radix : Nat) (character : Char) : Option Nat :=
  let value :=
    if character.isDigit then character.toNat - '0'.toNat
    else if character.isLower then character.toNat - 'a'.toNat + 10
    else if character.isUpper then character.toNat - 'A'.toNat + 10
    else radix
  if value < radix then some value else none

/-- The number that digits denote. -/
def numberOfDigits (radix : Nat) (digits : List Nat) : Nat :=
  digits.foldl (fun value digit => radix * value + digit) 0

/-- `str::parse` of an unsigned integer below a bound: digits after an optional plus sign. -/
def parseUnsigned (bound : Nat) (text : List Char) : Option Nat := do
  let body := match text with
    | '+' :: rest => rest
    | _ => text
  let digits ← body.mapM (toDigit 10)
  let value := numberOfDigits 10 digits
  if digits = [] ∨ bound ≤ value then none else some value

/-! ## Addresses -/

/-- A reader of the front of a text. -/
abbrev Scanner := StateT (List Char) Option

def readGivenChar (wanted : Char) : Scanner Unit
  | first :: rest => if first = wanted then some ((), rest) else none
  | [] => none

/-- Read the separator in front of every element but the first. -/
def readSeparator {α : Type} (separator : Char) (index : Nat) (inner : Scanner α) : Scanner α := do
  if index ≠ 0 then readGivenChar separator
  inner

/-- Read a number below a bound. -/
def readNumber (radix : Nat) (maxDigits : Option Nat) (allowZeroPrefix : Bool) (bound : Nat) :
    Scanner Nat := fun text =>
  let front := text.takeWhile fun character => (toDigit radix character).isSome
  let digits := front.filterMap (toDigit radix)
  let value := numberOfDigits radix digits
  if digits = [] ∨ maxDigits.any (· < digits.length) ∨
      (!allowZeroPrefix && digits.head? = some 0 && 1 < digits.length) ∨ bound ≤ value then
    none
  else
    some (value, text.drop front.length)

def readIpv4Addr : Scanner Ipv4Addr := do
  let octet index := readSeparator '.' index (readNumber 10 (some 3) false 256)
  let first ← octet 0
  let second ← octet 1
  let third ← octet 2
  let fourth ← octet 3
  return #v[first.toUInt8, second.toUInt8, third.toUInt8, fourth.toUInt8]

/-- Read at most as many groups of an IPv6 address as remain, and whether they end in an IPv4
address; `groups` is what has been read. -/
def readGroups (limit : Nat) : Nat → List Nat → List Char → (List Nat × Bool) × List Char
  | 0, groups, text => ((groups, false), text)
  | remaining + 1, groups, text =>
      let index := groups.length
      let ipv4 := if index + 1 < limit then readSeparator ':' index readIpv4Addr text else none
      match ipv4 with
      | some (octets, rest) => ((groups ++ ipv6Segments octets.toList, true), rest)
      | none =>
          match readSeparator ':' index (readNumber 16 (some 4) true 65536) text with
          | some (group, rest) => readGroups limit remaining (groups ++ [group]) rest
          | none => ((groups, false), text)

/-- The octets of eight groups. -/
def octetsOfGroups (groups : List Nat) : Vector UInt8 16 :=
  Vector.ofFn fun position =>
    let group := groups.getD (position / 2) 0
    if position.val % 2 = 0 then (group / 256).toUInt8 else group.toUInt8

def readIpv6Addr : Scanner (Vector UInt8 16) := fun text =>
  match readGroups 8 8 [] text with
  | ((head, headIpv4), rest) =>
      if head.length = 8 then
        some (octetsOfGroups head, rest)
      else if headIpv4 then
        none
      else do
        let ((), rest) ← readGivenChar ':' rest
        let ((), rest) ← readGivenChar ':' rest
        let limit := 8 - (head.length + 1)
        let ((tail, _), rest) := readGroups limit limit [] rest
        some (octetsOfGroups (head ++ List.replicate (8 - head.length - tail.length) 0 ++ tail),
          rest)

def readPort : Scanner UInt16 := do
  readGivenChar ':'
  let port ← readNumber 10 none true 65536
  return port.toUInt16

def readScopeId : Scanner UInt32 := do
  readGivenChar '%'
  let scope ← readNumber 10 none true 4294967296
  return scope.toUInt32

/-- A socket address and the scope of an IPv6 one. -/
def readSocketAddr : Scanner (SocketAddr × UInt32) := fun text =>
  let v4 : Scanner (SocketAddr × UInt32) := do
    let octets ← readIpv4Addr
    let port ← readPort
    return (.v4 octets port, 0)
  let v6 : Scanner (SocketAddr × UInt32) := do
    readGivenChar '['
    let octets ← readIpv6Addr
    let scope ← fun text => some ((readScopeId text).getD (0, text))
    readGivenChar ']'
    let port ← readPort
    return (.v6 octets port, scope)
  (v4 text).or (v6 text)

/-- Run a scanner on the whole of a text. -/
def parseWith {α : Type} (scanner : Scanner α) (text : List Char) : Option α :=
  match scanner text with
  | some (value, []) => some value
  | _ => none

/-- `str::parse` of an IPv4 address, which is at most 15 bytes long. -/
def parseIpv4Addr (text : List Char) : Option Ipv4Addr :=
  if 15 < (String.ofList text).utf8ByteSize then none else parseWith readIpv4Addr text

/-- `str::parse` of a socket address. -/
def parseSocketAddr (text : List Char) : Option (SocketAddr × UInt32) :=
  parseWith readSocketAddr text

example : parseSocketAddr "[fe80::1:0:ab%3]:7000".toList =
    some (.v6 #v[0xfe, 0x80, 0, 0, 0, 0, 0, 0, 0, 0, 0, 1, 0, 0, 0, 0xab] 7000, 3) := by
  decide +kernel

example : parseSocketAddr "0.0.0.0:7000".toList = some (.v4 #v[0, 0, 0, 0] 7000, 0) := by
  decide +kernel

example : parseIpv4Addr "239.255.0.086".toList = none := by decide +kernel

end Etle
