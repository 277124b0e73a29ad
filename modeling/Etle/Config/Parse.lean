import Etle.Config.Values
import Etle.Foundations.Lines

/-!
# The configuration file

A configuration file is read line by line.  A line is cut at its comment, which a quoted string may
not start, trimmed, and split at the first equals sign; what the value means depends on the key.
-/

namespace Etle

/-- The settings of a configuration file; paths are kept as they are written, and a `usize` has 64
bits. -/
structure EtleConfig where
  libraryRoot : Option String := none
  ipcSocket : Option String := none
  /-- The address and the scope of an IPv6 one. -/
  listen : Option (SocketAddr × UInt32) := none
  discoveryPort : Option UInt16 := none
  discoveryMulticast : Option Ipv4Addr := none
  discoveryTimeoutMs : Option UInt64 := none
  requestWindow : Option UInt64 := none
  parallel : Option UInt64 := none
  authPsk : Option String := none
  deriving DecidableEq

/-- Why a configuration file is refused; reading the file itself is not modelled. -/
inductive ConfigError where
  | invalidLine (line : Nat) (message : String)
  | invalidValue (line : Nat) (key value : String)
  | unknownKey (line : Nat) (key : String)
  deriving DecidableEq

/-- The keys of a configuration file. -/
inductive ConfigKey where
  | libraryRoot
  | ipcSocket
  | listen
  | discoveryPort
  | discoveryMulticast
  | discoveryTimeoutMs
  | requestWindow
  | parallel
  | authPsk
  deriving DecidableEq

namespace ConfigKey

/-- A key as it is written. -/
def name : ConfigKey → String
  | libraryRoot => "library_root"
  | ipcSocket => "ipc_socket"
  | listen => "listen"
  | discoveryPort => "discovery_port"
  | discoveryMulticast => "discovery_multicast"
  | discoveryTimeoutMs => "discovery_timeout_ms"
  | requestWindow => "request_window"
  | parallel => "parallel"
  | authPsk => "auth_psk"

/-- The keys in the order in which they are compared. -/
def all : List ConfigKey :=
  [libraryRoot, ipcSocket, listen, discoveryPort, discoveryMulticast, discoveryTimeoutMs,
    requestWindow, parallel, authPsk]

/-- The key that is written like this. -/
def ofText (text : List Char) : Option ConfigKey := all.find? fun key => key.name.toList = text

@[simp]
theorem ofText_name (key : ConfigKey) : ofText key.name.toList = some key := by
  cases key <;> decide

end ConfigKey

/-! ## Strings and comments -/

/-- The characters of an escaped string; an unknown escape stands for itself. -/
def unescapeBasicString : List Char → List Char
  | [] => []
  | '\\' :: '"' :: rest => '"' :: unescapeBasicString rest
  | '\\' :: '\\' :: rest => '\\' :: unescapeBasicString rest
  | '\\' :: 'n' :: rest => '\n' :: unescapeBasicString rest
  | '\\' :: 't' :: rest => '\t' :: unescapeBasicString rest
  | '\\' :: other :: rest => '\\' :: other :: unescapeBasicString rest
  | ['\\'] => ['\\']
  | character :: rest => character :: unescapeBasicString rest

/-- What lies between a quote at the start of a text and one at its end. -/
def quotedInner : List Char → Option (List Char)
  | '"' :: rest => if rest.getLast? = some '"' then some rest.dropLast else none
  | _ => none

/-- The string a value denotes: itself, unless its first and its last character are quotes. -/
def parseStringValue (value : List Char) : List Char :=
  let value := trim value
  match quotedInner value with
  | some inner => unescapeBasicString inner
  | none => value

/-- A line up to its comment, in the given state of the scanner. -/
def stripCommentFrom (inString escaped : Bool) : List Char → List Char
  | [] => []
  | character :: rest =>
      if escaped then
        character :: stripCommentFrom inString false rest
      else if character = '\\' ∧ inString then
        character :: stripCommentFrom inString true rest
      else if character = '"' then
        character :: stripCommentFrom (!inString) false rest
      else if character = '#' ∧ !inString then
        []
      else
        character :: stripCommentFrom inString false rest

def stripComment (line : List Char) : List Char := stripCommentFrom false false line

/-! ## Lines -/

/-- A value of the type of its key, or the error that names it. -/
def parseValue {α : Type} (line : Nat) (key : ConfigKey) (value : List Char)
    (parsed : Option α) : Except ConfigError α :=
  match parsed with
  | some result => .ok result
  | none => .error (.invalidValue line key.name (String.ofList value))

/-- Set one key of the configuration. -/
def setKey (config : EtleConfig) (line : Nat) (key : ConfigKey) (value : List Char) :
    Except ConfigError EtleConfig :=
  let text := parseStringValue value
  match key with
  | .libraryRoot => .ok { config with libraryRoot := some (String.ofList text) }
  | .ipcSocket => .ok { config with ipcSocket := some (String.ofList text) }
  | .listen => do
      let listen ← parseValue line key text (parseSocketAddr text)
      return { config with listen := some listen }
  | .discoveryPort => do
      let port ← parseValue line key value (parseUnsigned UInt16.size value)
      return { config with discoveryPort := some port.toUInt16 }
  | .discoveryMulticast => do
      let multicast ← parseValue line key text (parseIpv4Addr text)
      if isMulticast multicast then
        return { config with discoveryMulticast := some multicast }
      else
        throw (.invalidValue line key.name (ipv4Text multicast.toList))
  | .discoveryTimeoutMs => do
      let timeout ← parseValue line key value (parseUnsigned UInt64.size value)
      return { config with discoveryTimeoutMs := some timeout.toUInt64 }
  | .requestWindow => do
      let window ← parseValue line key value (parseUnsigned UInt64.size value)
      return { config with requestWindow := some window.toUInt64 }
  | .parallel => do
      let parallel ← parseValue line key value (parseUnsigned UInt64.size value)
      return { config with parallel := some parallel.toUInt64 }
  | .authPsk => .ok { config with authPsk := some (String.ofList text) }

/-- The parts of a line that are left when its comment and white space are gone. -/
inductive LineParts where
  | blank
  | invalid (message : String)
  | setting (key value : List Char)
  deriving DecidableEq

/-- Take a line apart. -/
def lineParts (rawLine : List Char) : LineParts :=
  let line := trim (stripComment rawLine)
  if line = [] then
    .blank
  else
    match splitOnce '=' line with
    | none => .invalid "expected `key = value`"
    | some (key, value) =>
        let key := trim key
        let value := trim value
        if key = [] ∨ value = [] then
          .invalid "key and value must be non-empty"
        else
          .setting key value

/-- Read one line into the configuration. -/
def parseLine (config : EtleConfig) (rawLine : List Char × Nat) :
    Except ConfigError EtleConfig :=
  let lineNumber := rawLine.2 + 1
  match lineParts rawLine.1 with
  | .blank => .ok config
  | .invalid message => .error (.invalidLine lineNumber message)
  | .setting text value =>
      match ConfigKey.ofText text with
      | some key => setKey config lineNumber key value
      | none => .error (.unknownKey lineNumber (String.ofList text))

/-- Read a configuration file. -/
def parse (source : List Char) : Except ConfigError EtleConfig :=
  (lines source).zipIdx.foldlM parseLine {}

example : parse "library_root = \"/tmp/#not-comment\" # comment\nrequest_window = 16 # c".toList =
    .ok { libraryRoot := some "/tmp/#not-comment", requestWindow := some 16 } := by
  decide +kernel

example : parse "discovery_multicast = \"192.168.1.1\"".toList =
    .error (.invalidValue 1 "discovery_multicast" "192.168.1.1") := by
  decide +kernel

end Etle
