import Etle.Config.Parse

/-!
# Quoted values

A string that is written with its quotes, backslashes, line feeds and tabs escaped is read back as
it was.  A value that starts with a quote and is no complete quoted string is read as well.
-/

namespace Etle

/-- The keys whose values are strings. -/
inductive StringKey where
  | libraryRoot
  | ipcSocket
  | authPsk
  deriving DecidableEq

namespace StringKey

def key : StringKey → ConfigKey
  | libraryRoot => .libraryRoot
  | ipcSocket => .ipcSocket
  | authPsk => .authPsk

/-- The configuration with this key set. -/
def set (config : EtleConfig) (text : String) : StringKey → EtleConfig
  | libraryRoot => { config with libraryRoot := some text }
  | ipcSocket => { config with ipcSocket := some text }
  | authPsk => { config with authPsk := some text }

theorem setKey_key (config : EtleConfig) (line : Nat) (key : StringKey) (value : List Char) :
    setKey config line key.key value =
      .ok (key.set config (String.ofList (parseStringValue value))) := by
  cases key <;> rfl

end StringKey

/-! ## Escaping -/

/-- A character as it is written in a quoted string. -/
def escapeCharacter (character : Char) : List Char :=
  if character = '\\' then ['\\', '\\']
  else if character = '"' then ['\\', '"']
  else if character = '\n' then ['\\', 'n']
  else if character = '\t' then ['\\', 't']
  else [character]

/-- A string as it is written between quotes. -/
def escapeBasicString (text : List Char) : List Char := text.flatMap escapeCharacter

theorem escapeBasicString_cons (character : Char) (text : List Char) :
    escapeBasicString (character :: text) = escapeCharacter character ++ escapeBasicString text :=
  rfl

theorem unescapeBasicString_escape_append (character : Char) (rest : List Char) :
    unescapeBasicString (escapeCharacter character ++ rest) =
      character :: unescapeBasicString rest := by
  unfold escapeCharacter
  split_ifs with backslash
  all_goals simp_all [unescapeBasicString]

/-- Unescaping undoes escaping. -/
theorem unescapeBasicString_escape (text : List Char) :
    unescapeBasicString (escapeBasicString text) = text := by
  induction text with
  | nil => rfl
  | cons character text ih =>
      rw [escapeBasicString_cons, unescapeBasicString_escape_append, ih]

/-! ## Comments -/

/-- Outside strings the scanner keeps everything up to a quote or a comment. -/
theorem stripCommentFrom_plain {front : List Char}
    (plain : ∀ character ∈ front, character ≠ '"' ∧ character ≠ '#') (rest : List Char) :
    stripCommentFrom false false (front ++ rest) = front ++ stripCommentFrom false false rest := by
  induction front with
  | nil => rfl
  | cons character front ih =>
      obtain ⟨⟨no_quote, no_comment⟩, plain⟩ := List.forall_mem_cons.mp plain
      simp [stripCommentFrom, no_quote, no_comment, ih plain]

/-- Inside a string the scanner keeps an escaped text and is inside the string after it. -/
theorem stripCommentFrom_escape (text rest : List Char) :
    stripCommentFrom true false (escapeBasicString text ++ rest) =
      escapeBasicString text ++ stripCommentFrom true false rest := by
  induction text with
  | nil => rfl
  | cons character text ih =>
      have one (tail : List Char) :
          stripCommentFrom true false (escapeCharacter character ++ tail) =
          escapeCharacter character ++ stripCommentFrom true false tail := by
        unfold escapeCharacter
        split_ifs <;> simp_all [stripCommentFrom]
      rw [escapeBasicString_cons, List.append_assoc, one, ih, List.append_assoc]

/-- Nothing, or a comment. -/
def OptionalComment (text : List Char) : Prop := ∀ first ∈ text.head?, first = '#'

theorem plain_of_blank {text : List Char} (blank : Blank text) :
    ∀ character ∈ text, character ≠ '"' ∧ character ≠ '#' := by
  intro character member
  have white := blank character member
  constructor
  all_goals
    rintro rfl
    exact absurd white (by decide)

/-- White space and a comment leave the white space. -/
theorem stripCommentFrom_comment {space comment : List Char} (blank : Blank space)
    (optional : OptionalComment comment) :
    stripCommentFrom false false (space ++ comment) = space := by
  rw [stripCommentFrom_plain (plain_of_blank blank)]
  cases comment with
  | nil => simp [stripCommentFrom]
  | cons first rest =>
      obtain rfl := optional first rfl
      simp [stripCommentFrom]

/-! ## Lines -/

/-- A line that is blank or a comment. -/
def IgnoredLine (line : List Char) : Prop :=
  ∃ space comment, Blank space ∧ OptionalComment comment ∧ line = space ++ comment

/-- A string in its quotes. -/
def quoted (text : String) : List Char := '"' :: escapeBasicString text.toList ++ ['"']

/-- A line that sets a key to a quoted string, perhaps with a comment after it. -/
def SettingLine (key : StringKey) (text : String) (line : List Char) : Prop :=
  ∃ indent before after space comment, Blank indent ∧ Blank before ∧ Blank after ∧ Blank space ∧
    OptionalComment comment ∧
    line = indent ++ key.key.name.toList ++ before ++ '=' :: (after ++ quoted text ++ space) ++
      comment

theorem tight_nil : Tight [] := by simp [Tight]

theorem trim_blank {text : List Char} (blank : Blank text) : trim text = [] := by
  simpa using trim_append blank tight_nil blank_nil

theorem lineParts_ignoredLine {line : List Char} (ignored : IgnoredLine line) :
    lineParts line = .blank := by
  obtain ⟨space, comment, blank, optional, rfl⟩ := ignored
  have stripped : stripComment (space ++ comment) = space :=
    stripCommentFrom_comment blank optional
  rw [lineParts, stripped, trim_blank blank, if_pos rfl]

theorem tight_quoted (text : String) : Tight (quoted text) := by
  have quote_tight : Tight ['"'] := tight_of_visible (by simp [isWhitespace])
  exact quote_tight.join quote_tight (by simp) (by simp) (escapeBasicString text.toList)

/-- A quoted string denotes what has been quoted. -/
theorem parseStringValue_quoted (text : String) :
    parseStringValue (quoted text) = text.toList := by
  have trimmed : trim (quoted text) = quoted text := by
    simpa using trim_append blank_nil (tight_quoted text) blank_nil
  have inner : quotedInner (quoted text) = some (escapeBasicString text.toList) := by
    simp [quotedInner, quoted]
  rw [parseStringValue]
  simp only [trimmed, inner]
  exact unescapeBasicString_escape text.toList

theorem stripComment_settingLine {front space comment : List Char} (text : String)
    (plain : ∀ character ∈ front, character ≠ '"' ∧ character ≠ '#') (blank : Blank space)
    (optional : OptionalComment comment) :
    stripComment (front ++ (quoted text ++ (space ++ comment))) =
      front ++ (quoted text ++ space) := by
  rw [stripComment, stripCommentFrom_plain plain]
  simp [quoted, stripCommentFrom, stripCommentFrom_escape, stripCommentFrom_comment blank optional]

/-- The name of a key has no white space, and no character with a meaning of its own. -/
theorem name_plain (key : ConfigKey) : ∀ character ∈ key.name.toList,
    isWhitespace character = false ∧ character ≠ '"' ∧ character ≠ '#' ∧ character ≠ '=' := by
  have checked : key.name.toList.all fun character =>
      !isWhitespace character && character ≠ '"' && character ≠ '#' && character ≠ '=' := by
    cases key <;> decide
  intro character member
  simpa [and_assoc] using List.all_eq_true.mp checked character member

theorem tight_name (key : ConfigKey) : Tight key.name.toList :=
  tight_of_visible fun character member => (name_plain key character member).1

theorem name_ne_nil (key : ConfigKey) : key.name.toList ≠ [] := by
  cases key <;> decide

theorem lineParts_settingLine {key : StringKey} {text : String} {line : List Char}
    (setting : SettingLine key text line) :
    lineParts line = .setting key.key.name.toList (quoted text) := by
  obtain ⟨indent, before, after, space, comment, indent_blank, before_blank, after_blank,
    space_blank, optional, rfl⟩ := setting
  have name_characters := name_plain key.key
  have front_plain : ∀ character ∈ indent ++ key.key.name.toList ++ before ++ '=' :: after,
      character ≠ '"' ∧ character ≠ '#' := by
    intro character member
    simp only [List.mem_append, List.mem_cons] at member
    obtain ((member | member) | member) | rfl | member := member
    · exact plain_of_blank indent_blank character member
    · exact ⟨(name_characters character member).2.1, (name_characters character member).2.2.1⟩
    · exact plain_of_blank before_blank character member
    · decide
    · exact plain_of_blank after_blank character member
  have stripped : stripComment (indent ++ key.key.name.toList ++ before ++
      '=' :: (after ++ quoted text ++ space) ++ comment) =
        indent ++ (key.key.name.toList ++ (before ++ '=' :: after) ++ quoted text) ++ space := by
    have kept := stripComment_settingLine text front_plain space_blank optional
    simpa using kept
  have core_tight := (tight_name key.key).join (tight_quoted text) (name_ne_nil key.key)
    (by simp [quoted]) (before ++ '=' :: after)
  have no_equals : '=' ∉ key.key.name.toList ++ before := by
    intro member
    obtain member | member := List.mem_append.mp member
    · exact (name_characters '=' member).2.2.2 rfl
    · exact absurd (before_blank '=' member) (by decide)
  have parts : splitOnce '=' (key.key.name.toList ++ (before ++ '=' :: after) ++ quoted text) =
      some (key.key.name.toList ++ before, after ++ quoted text) := by
    have split := splitOnce_append no_equals (after ++ quoted text)
    simpa using split
  have key_trimmed : trim (key.key.name.toList ++ before) = key.key.name.toList := by
    simpa using trim_append blank_nil (tight_name key.key) before_blank
  have value_trimmed : trim (after ++ quoted text) = quoted text := by
    simpa using trim_append after_blank (tight_quoted text) blank_nil
  rw [lineParts, stripped, trim_append indent_blank core_tight space_blank,
    if_neg (by simp [quoted]), parts]
  simp only [key_trimmed, value_trimmed]
  exact if_neg (not_or.mpr ⟨name_ne_nil key.key, by simp [quoted]⟩)

/-! ## Files -/

/-- Ignored lines do not change the configuration. -/
theorem foldlM_ignoredLines {rawLines : List (List Char)}
    (ignored : ∀ line ∈ rawLines, IgnoredLine line) (first : Nat) (config : EtleConfig) :
    (rawLines.zipIdx first).foldlM parseLine config = .ok config := by
  induction rawLines generalizing first with
  | nil => rfl
  | cons line rawLines ih =>
      obtain ⟨line_ignored, ignored⟩ := List.forall_mem_cons.mp ignored
      have kept : parseLine config (line, first) = .ok config := by
        simp [parseLine, lineParts_ignoredLine line_ignored]
      rw [List.zipIdx_cons, List.foldlM_cons, kept]
      exact ih ignored (first + 1)

/-- A file of blank and comment lines and one line that sets a key to a quoted string sets this key
to this string, and nothing else. -/
theorem parse_quoted_string (key : StringKey) (text : String) (source : List Char)
    (before after : List (List Char)) (line : List Char)
    (cut : lines source = before ++ line :: after)
    (ignored : ∀ other ∈ before ++ after, IgnoredLine other)
    (setting : SettingLine key text line) : parse source = .ok (key.set {} text) := by
  have before_ignored : ∀ other ∈ before, IgnoredLine other := fun other member =>
    ignored other (List.mem_append_left _ member)
  have after_ignored : ∀ other ∈ after, IgnoredLine other := fun other member =>
    ignored other (List.mem_append_right _ member)
  have set : parseLine {} (line, before.length) = .ok (key.set {} text) := by
    simp [parseLine, lineParts_settingLine setting, key.setKey_key, parseStringValue_quoted]
  rw [parse, cut, List.zipIdx_append, List.foldlM_append, foldlM_ignoredLines before_ignored]
  simp only [bind, Except.bind, List.zipIdx_cons, List.foldlM_cons, Nat.zero_add, set]
  exact foldlM_ignoredLines after_ignored _ _


/-- A comment line, a blank line and a passphrase with a number sign, a backslash and a quote. -/
theorem parse_quoted_string_passphrase :
    parse "# secret\n \nauth_psk = \"a#b\\\\\\\"c \" # it is \"a\"".toList =
      .ok { authPsk := some "a#b\\\"c " } := by
  refine parse_quoted_string .authPsk "a#b\\\"c " _ ["# secret".toList, [' ']] []
    "auth_psk = \"a#b\\\\\\\"c \" # it is \"a\"".toList (by decide) ?_ ?_
  · intro other member
    obtain rfl | rfl : other = "# secret".toList ∨ other = [' '] := by simpa using member
    · exact ⟨[], "# secret".toList, by simp [Blank], by simp [OptionalComment], rfl⟩
    · exact ⟨[' '], [], by decide, by simp [OptionalComment], rfl⟩
  · exact ⟨[], [' '], [' '], [' '], "# it is \"a\"".toList, by decide, by decide,
      by decide, by decide, by simp [OptionalComment], by decide⟩

/-! ## Incomplete strings -/

/-- The first quote that is not escaped is the last character. -/
def closesAtEnd : List Char → Bool
  | [] => false
  | '\\' :: _ :: rest => closesAtEnd rest
  | '"' :: rest => rest.isEmpty
  | _ :: rest => closesAtEnd rest

/-- A value that starts with a quote is one complete quoted string. -/
def completeIfQuoted : List Char → Bool
  | '"' :: rest => closesAtEnd rest
  | _ => true

/-- Every string key of a file is set to a complete quoted string or to one without a quote at its
start. -/
def StringsComplete (source : List Char) : Prop :=
  ∀ rawLine ∈ lines source, ∀ key : StringKey, ∀ value,
    lineParts rawLine = .setting key.key.name.toList value → completeIfQuoted value = true

/-- The value is of the type of its key; any value is for a string key. -/
def readsAs (value : List Char) : ConfigKey → Bool
  | .libraryRoot | .ipcSocket | .authPsk => true
  | .listen => (parseSocketAddr (parseStringValue value)).isSome
  | .discoveryMulticast => (parseIpv4Addr (parseStringValue value)).any isMulticast
  | .discoveryPort => (parseUnsigned UInt16.size value).isSome
  | .discoveryTimeoutMs | .requestWindow | .parallel => (parseUnsigned UInt64.size value).isSome

/-- The line is empty, a comment, or sets a known key to a value of its type. -/
def acceptable (rawLine : List Char) : Bool :=
  match lineParts rawLine with
  | .blank => true
  | .invalid _ => false
  | .setting text value => (ConfigKey.ofText text).any (readsAs value)

theorem setKey_isOk (config : EtleConfig) (line : Nat) (key : ConfigKey) (value : List Char) :
    (setKey config line key value).isOk = readsAs value key := by
  cases key with
  | libraryRoot | ipcSocket | authPsk => rfl
  | listen =>
      simp only [setKey, readsAs]
      cases parseSocketAddr (parseStringValue value) <;> rfl
  | discoveryMulticast =>
      simp only [setKey, readsAs]
      cases parseIpv4Addr (parseStringValue value) with
      | none => rfl
      | some addr =>
          simp only [parseValue, bind, Except.bind, Option.any_some]
          cases isMulticast addr <;> rfl
  | discoveryPort =>
      simp only [setKey, readsAs]
      cases parseUnsigned UInt16.size value <;> rfl
  | discoveryTimeoutMs | requestWindow | parallel =>
      simp only [setKey, readsAs]
      cases parseUnsigned UInt64.size value <;> rfl

theorem parseLine_isOk (config : EtleConfig) (rawLine : List Char × Nat) :
    (parseLine config rawLine).isOk = acceptable rawLine.1 := by
  simp only [parseLine, acceptable]
  cases lineParts rawLine.1 with
  | blank | invalid message => rfl
  | setting text value =>
      simp only
      cases ConfigKey.ofText text with
      | none => rfl
      | some key => exact setKey_isOk config (rawLine.2 + 1) key value

theorem foldlM_parseLine_isOk (rawLines : List (List Char × Nat)) (config : EtleConfig) :
    (rawLines.foldlM parseLine config).isOk = rawLines.all fun rawLine => acceptable rawLine.1 := by
  induction rawLines generalizing config with
  | nil => rfl
  | cons rawLine rawLines ih =>
      have first := parseLine_isOk config rawLine
      rw [List.foldlM_cons, List.all_cons]
      cases read : parseLine config rawLine with
      | error error =>
          rw [← first, read]
          rfl
      | ok next =>
          rw [← first, read]
          exact ih next

/-- A file is read exactly when each of its lines is acceptable. -/
theorem parse_eq_ok_iff (source : List Char) :
    (∃ config, parse source = .ok config) ↔
      ∀ rawLine ∈ lines source, acceptable rawLine = true := by
  have unnumbered : ((lines source).zipIdx.all fun rawLine => acceptable rawLine.1) =
      (lines source).all acceptable := by
    rw [← Function.comp_def, ← List.all_map, List.zipIdx_map_fst]
  have read : (parse source).isOk = (lines source).all acceptable := by
    rw [parse, foldlM_parseLine_isOk, unnumbered]
  rw [← List.all_eq_true, ← read]
  cases parse source <;> simp [Except.isOk, Except.toBool]

/-- What stands behind the first quote that is not escaped. -/
def behindQuote : List Char → Option (List Char)
  | [] => none
  | '\\' :: _ :: rest => behindQuote rest
  | '"' :: rest => some rest
  | _ :: rest => behindQuote rest

/-- A line that sets a string key to a value that opens a string and does not close it. -/
def Unterminated (rawLine : List Char) : Prop :=
  ∃ (key : StringKey) (rest : List Char),
    lineParts rawLine = .setting key.key.name.toList ('"' :: rest) ∧ behindQuote rest = none

/-- A line that sets a string key to a string with a text behind it. -/
def Overlong (rawLine : List Char) : Prop :=
  ∃ (key : StringKey) (rest : List Char) (first : Char) (more : List Char),
    lineParts rawLine = .setting key.key.name.toList ('"' :: rest) ∧
      behindQuote rest = some (first :: more)

theorem closesAtEnd_iff (text : List Char) :
    closesAtEnd text = true ↔ behindQuote text = some [] := by
  fun_induction closesAtEnd text <;> simp_all [behindQuote]

/-- Strings are complete unless one is not closed or has a text behind it. -/
theorem stringsComplete_iff (source : List Char) :
    StringsComplete source ↔
      ∀ rawLine ∈ lines source, ¬Unterminated rawLine ∧ ¬Overlong rawLine := by
  constructor
  · intro complete rawLine member
    constructor
    · rintro ⟨key, rest, parts, unclosed⟩
      have closes := (closesAtEnd_iff rest).mp (complete rawLine member key _ parts)
      rw [unclosed] at closes
      cases closes
    · rintro ⟨key, rest, first, more, parts, behind⟩
      have closes := (closesAtEnd_iff rest).mp (complete rawLine member key _ parts)
      rw [behind] at closes
      cases closes
  · intro proper rawLine member key value parts
    obtain ⟨terminated, short⟩ := proper rawLine member
    unfold completeIfQuoted
    split
    · rename_i rest
      rw [closesAtEnd_iff]
      cases behind : behindQuote rest with
      | none => exact absurd ⟨key, rest, parts, behind⟩ terminated
      | some after =>
          cases after with
          | nil => rfl
          | cons first more => exact absurd ⟨key, rest, first, more, parts, behind⟩ short
    · rfl

/-- A file that is read has complete strings only, exactly when none of its strings is unterminated
or overlong or another of its lines is refused. -/
theorem parse_refuses_incomplete_strings_iff (source : List Char) :
    (∀ config, parse source = .ok config → StringsComplete source) ↔
      (∃ rawLine ∈ lines source, acceptable rawLine = false) ∨
        ∀ rawLine ∈ lines source, ¬Unterminated rawLine ∧ ¬Overlong rawLine := by
  rw [← stringsComplete_iff]
  have refused : (∃ rawLine ∈ lines source, acceptable rawLine = false) ↔
      ¬∃ config, parse source = .ok config := by
    rw [parse_eq_ok_iff]
    simp
  rw [refused]
  constructor
  · intro complete
    by_cases read : ∃ config, parse source = .ok config
    · obtain ⟨config, read⟩ := read
      exact .inr (complete config read)
    · exact .inl read
  · rintro (unread | complete) config read
    · exact absurd ⟨config, read⟩ unread
    · exact complete

/-- A string without its closing quote, one whose closing quote is escaped, and one with a text
behind it are read. -/
theorem parse_accepts_incomplete_strings :
    parse "auth_psk = \"abc".toList = .ok { authPsk := some "\"abc" } ∧
      ¬StringsComplete "auth_psk = \"abc".toList ∧
      parse "library_root = \"/srv/share\\\"".toList =
        .ok { libraryRoot := some "/srv/share\\" } ∧
      ¬StringsComplete "library_root = \"/srv/share\\\"".toList ∧
      parse "ipc_socket = \"/run/a\" \"/run/b\"".toList =
        .ok { ipcSocket := some "/run/a\" \"/run/b" } ∧
      ¬StringsComplete "ipc_socket = \"/run/a\" \"/run/b\"".toList := by
  refine ⟨by decide +kernel, ?_, by decide +kernel, ?_, by decide +kernel, ?_⟩
  · intro complete
    exact absurd (complete _ List.mem_cons_self .authPsk _ rfl) (by decide)
  · intro complete
    exact absurd (complete _ List.mem_cons_self .libraryRoot _ rfl) (by decide)
  · intro complete
    exact absurd (complete _ List.mem_cons_self .ipcSocket _ rfl) (by decide)

end Etle
