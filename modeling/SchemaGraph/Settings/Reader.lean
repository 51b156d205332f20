import SchemaGraph.Json.Reader
import SchemaGraph.Settings
/-!
# Settings.Reader -- settings from TOML text

Settings are read from the top-level keys of a TOML text: four flags and the list of the formats
that are kept. A key that is missing keeps its standard value. A text is refused if it is not
TOML, if a key is unknown or given twice, and if a value is neither a flag nor a list of formats
where its key asks for one. So of TOML's values only booleans and arrays of strings are read; any
other value is refused whatever its key.
-/

namespace SchemaGraph

set_option autoImplicit false

/-- Why there are no settings. -/
inductive SettingsFault where
  /-- The text does not give settings. -/
  | invalid
  /-- The text cannot be had. -/
  | unavailable
deriving DecidableEq, Repr

def SettingsFault.message : SettingsFault → String
  | .invalid => "invalid configuration"
  | .unavailable => "input/output error"

namespace Toml

/-! ## Blanks, ends of lines, comments -/

def isSpace (c : Char) : Bool := c == ' ' || c == '\t'

/-- The text without the spaces in front of it. -/
def skipSpaces (cs : List Char) : List Char := cs.dropWhile isSpace

/-- A character that may stand in comments and strings as it is. -/
def isPlain (c : Char) : Bool := c == '\t' || (0x20 ≤ c.toNat && c.toNat ≠ 0x7F)

/-- The text behind the end of a line, if it starts with one. -/
def takeNewline : List Char → Option (List Char)
  | '\n' :: rest => some rest
  | '\r' :: '\n' :: rest => some rest
  | _ => none

/-- The text behind a comment, or the same text if there is none. -/
def skipComment : List Char → List Char
  | '#' :: rest => rest.dropWhile isPlain
  | cs => cs

/-- The text behind the rest of a line that holds nothing more than a comment. -/
def endLine (cs : List Char) : Option (List Char) :=
  match skipComment (skipSpaces cs) with
  | [] => some []
  | rest => takeNewline rest

/-- The text behind spaces, comments and ends of lines, of which there are at most `bound`. -/
def skipLines : Nat → List Char → List Char
  | 0, cs => cs
  | bound + 1, cs =>
    let rest := skipSpaces cs
    match takeNewline (skipComment rest) with
    | some below => skipLines bound below
    | none => rest

/-! ## Strings -/

/-- The character that a backslash and the text behind it stand for, and the text behind that. -/
def takeEscape : List Char → Option (Char × List Char)
  | 'b' :: rest => some ('\x08', rest)
  | 't' :: rest => some ('\t', rest)
  | 'n' :: rest => some ('\n', rest)
  | 'f' :: rest => some ('\x0c', rest)
  | 'r' :: rest => some ('\r', rest)
  | '"' :: rest => some ('"', rest)
  | '\\' :: rest => some ('\\', rest)
  | 'u' :: a :: b :: c :: d :: rest => do
    let code ← Json.hexUnit? a b c d
    if code.isValidChar then some (Char.ofNat code, rest) else none
  | 'U' :: a :: b :: c :: d :: e :: f :: g :: h :: rest => do
    let high ← Json.hexUnit? a b c d
    let low ← Json.hexUnit? e f g h
    let code := high * 0x10000 + low
    if code.isValidChar then some (Char.ofNat code, rest) else none
  | _ => none

/-- A string in double quotes on one line, behind its opening quote. -/
def takeBasic : Nat → List Char → Option (List Char × List Char)
  | 0, _ => none
  | bound + 1, cs =>
    match cs with
    | [] => none
    | '"' :: rest => some ([], rest)
    | '\\' :: rest => do
      let (c, rest) ← takeEscape rest
      let (chars, rest) ← takeBasic bound rest
      some (c :: chars, rest)
    | c :: rest =>
      if isPlain c then do
        let (chars, rest) ← takeBasic bound rest
        some (c :: chars, rest)
      else none

/-- A string in single quotes on one line, behind its opening quote. -/
def takeLiteral : List Char → Option (List Char × List Char)
  | [] => none
  | '\'' :: rest => some ([], rest)
  | c :: rest =>
    if isPlain c then do
      let (chars, rest) ← takeLiteral rest
      some (c :: chars, rest)
    else none

/-- The text behind a backslash at the end of a line: spaces and ends of lines are skipped. -/
def skipFolded : Nat → List Char → List Char
  | 0, cs => cs
  | bound + 1, cs =>
    match takeNewline (skipSpaces cs) with
    | some below => skipFolded bound below
    | none => skipSpaces cs

/-- A string in three double quotes, behind the opening ones. -/
def takeLongBasic : Nat → List Char → Option (List Char × List Char)
  | 0, _ => none
  | bound + 1, cs =>
    match cs with
    | [] => none
    | '"' :: '"' :: '"' :: rest => some ([], rest)
    | '\\' :: rest =>
      match takeNewline (skipSpaces rest) with
      | some below => takeLongBasic bound (skipFolded below.length below)
      | none => do
        let (c, rest) ← takeEscape rest
        let (chars, rest) ← takeLongBasic bound rest
        some (c :: chars, rest)
    | c :: rest =>
      match takeNewline cs with
      | some below => do
        let (chars, rest) ← takeLongBasic bound below
        some ('\n' :: chars, rest)
      | none =>
        if isPlain c then do
          let (chars, rest) ← takeLongBasic bound rest
          some (c :: chars, rest)
        else none

/-- A string in three single quotes, behind the opening ones. -/
def takeLongLiteral : Nat → List Char → Option (List Char × List Char)
  | 0, _ => none
  | bound + 1, cs =>
    match cs with
    | [] => none
    | '\'' :: '\'' :: '\'' :: rest => some ([], rest)
    | c :: rest =>
      match takeNewline cs with
      | some below => do
        let (chars, rest) ← takeLongLiteral bound below
        some ('\n' :: chars, rest)
      | none =>
        if isPlain c then do
          let (chars, rest) ← takeLongLiteral bound rest
          some (c :: chars, rest)
        else none

/-- The text of a long string without an end of line right behind its opening quotes. -/
def trimNewline (cs : List Char) : List Char := (takeNewline cs).getD cs

/-- A string of any of the four forms. -/
def takeString : List Char → Option (List Char × List Char)
  | '"' :: '"' :: '"' :: rest => takeLongBasic rest.length (trimNewline rest)
  | '"' :: rest => takeBasic rest.length rest
  | '\'' :: '\'' :: '\'' :: rest => takeLongLiteral rest.length (trimNewline rest)
  | '\'' :: rest => takeLiteral rest
  | _ => none

/-! ## Keys and values -/

def isBareKeyChar (c : Char) : Bool := c.isAlphanum || c == '-' || c == '_'

/-- A key of one part: bare, or a string on one line. -/
def takeKey : List Char → Option (List Char × List Char)
  | '"' :: rest => takeBasic rest.length rest
  | '\'' :: rest => takeLiteral rest
  | cs =>
    match cs.takeWhile isBareKeyChar with
    | [] => none
    | key => some (key, cs.dropWhile isBareKeyChar)

/-- The strings of an array up to the closing bracket. -/
def takeStrings : Nat → List Char → Option (List String × List Char)
  | 0, _ => none
  | bound + 1, cs =>
    match skipLines cs.length cs with
    | ']' :: rest => some ([], rest)
    | cs => do
      let (chars, rest) ← takeString cs
      let first := String.ofList chars
      match skipLines rest.length rest with
      | ',' :: rest => do
        let (later, rest) ← takeStrings bound rest
        some (first :: later, rest)
      | ']' :: rest => some ([first], rest)
      | _ => none

end Toml

/-- The value of a setting. -/
inductive SettingValue where
  | flag (b : Bool)
  | list (items : List String)
deriving DecidableEq, Repr

namespace Toml

def takeValue : List Char → Option (SettingValue × List Char)
  | 't' :: 'r' :: 'u' :: 'e' :: rest => some (.flag true, rest)
  | 'f' :: 'a' :: 'l' :: 's' :: 'e' :: rest => some (.flag false, rest)
  | '[' :: rest => do
    let (items, rest) ← takeStrings (rest.length + 1) rest
    some (.list items, rest)
  | _ => none

/-- A key and its value, up to the end of the line. -/
def takeEntry (cs : List Char) : Option ((String × SettingValue) × List Char) := do
  let (key, cs) ← takeKey cs
  match skipSpaces cs with
  | '=' :: cs => do
    let (value, cs) ← takeValue (skipSpaces cs)
    some ((String.ofList key, value), ← endLine cs)
  | _ => none

/-- The entries of a text, of which there are at most `bound`. -/
def takeEntries : Nat → List Char → Option (List (String × SettingValue))
  | 0, _ => none
  | bound + 1, cs =>
    match skipLines cs.length cs with
    | [] => some []
    | '#' :: cs => if (skipComment ('#' :: cs)).isEmpty then some [] else none
    | cs => do
      let (entry, cs) ← takeEntry cs
      let later ← takeEntries bound cs
      some (entry :: later)

/-- The text without the mark that may stand at its beginning. -/
def skipMark : List Char → List Char
  | '\uFEFF' :: rest => rest
  | cs => cs

/-- The entries of a text, if no key is given twice. -/
def entries? (text : String) : Option (List (String × SettingValue)) := do
  let entries ← takeEntries (text.length + 1) (skipMark text.toList)
  if firsts (entries.map Prod.fst) = entries.map Prod.fst then some entries else none

end Toml

namespace Settings

/-- The settings with one of them changed. -/
def change (settings : Settings) (entry : String × SettingValue) : Option Settings :=
  match entry with
  | ("string-type-mapping", .list items) => do
    let formats ← items.mapM StringFormat.ofName?
    some { settings with target := { settings.target with kept := .ofList formats } }
  | ("alphabetize-properties", .flag b) =>
    some { settings with target := { settings.target with alphabetize := b } }
  | ("conflate-numbers", .flag b) => some { settings with conflate := b }
  | ("include-fixed-classes", .flag b) =>
    some { settings with search := { settings.search with includeFixed := b } }
  | ("only-with-same-properties", .flag b) =>
    some { settings with search := { settings.search with onlySame := b } }
  | _ => none

/-- The settings of a text. -/
def parse (text : String) : Except SettingsFault Settings :=
  match (Toml.entries? text).bind fun entries => entries.foldlM change standard with
  | some settings => .ok settings
  | none => .error .invalid

end Settings

end SchemaGraph
