import SchemaGraph.Decimal.Shortest
import SchemaGraph.Json.Value
/-!
# Json.Printer -- the compact text of JSON values

Values are written without blanks. In strings the quote, the backslash and the control characters
below U+0020 are escaped, the latter by their short names where they have one; everything else
stands for itself.
-/

namespace SchemaGraph.Json

set_option autoImplicit false

/-- A lower case hexadecimal digit. -/
def hexDigit (n : Nat) : Char :=
  if n < 10 then Char.ofNat ('0'.toNat + n) else Char.ofNat ('a'.toNat + (n - 10))

/-- A character as it stands in a string. -/
def escapeChar (c : Char) : List Char :=
  if c = '"' then ['\\', '"']
  else if c = '\\' then ['\\', '\\']
  else if c = '\x08' then ['\\', 'b']
  else if c = '\x0c' then ['\\', 'f']
  else if c = '\n' then ['\\', 'n']
  else if c = '\r' then ['\\', 'r']
  else if c = '\t' then ['\\', 't']
  else if c.toNat < 0x20 then
    ['\\', 'u', '0', '0', hexDigit (c.toNat / 16), hexDigit (c.toNat % 16)]
  else [c]

/-- The characters of a string between its quotes. -/
def escapeChars : List Char → List Char
  | [] => []
  | c :: rest => escapeChar c ++ escapeChars rest

def stringChars (s : String) : List Char := '"' :: (escapeChars s.toList ++ ['"'])

def natChars (n : Nat) : List Char := Nat.toDigits 10 n

def intChars : Int → List Char
  | .ofNat n => natChars n
  | .negSucc n => '-' :: natChars (n + 1)

def boolChars : Bool → List Char
  | true => ['t', 'r', 'u', 'e']
  | false => ['f', 'a', 'l', 's', 'e']

/-- The texts of the items, with commas between them. -/
def commaSeparated : List (List Char) → List Char
  | [] => []
  | [item] => item
  | item :: rest => item ++ ',' :: commaSeparated rest

def arrayChars (items : List (List Char)) : List Char := '[' :: (commaSeparated items ++ [']'])

/-- A member of an object. -/
def memberChars (key : String) (value : List Char) : List Char := stringChars key ++ ':' :: value

def objectChars (members : List (List Char)) : List Char :=
  '\x7b' :: (commaSeparated members ++ ['\x7d'])

mutual

/-- The text of a value. -/
def valueChars : Value → List Char
  | .null => ['n', 'u', 'l', 'l']
  | .bool b => boolChars b
  | .int n => intChars n
  | .double d => d.text.toList
  | .string s => stringChars s
  | .array items => arrayChars (itemsChars items)
  | .object fields => objectChars (fieldsChars fields)

def itemsChars : List Value → List (List Char)
  | [] => []
  | x :: xs => valueChars x :: itemsChars xs

def fieldsChars : List (String × Value) → List (List Char)
  | [] => []
  | (k, x) :: xs => memberChars k (valueChars x) :: fieldsChars xs

end

end SchemaGraph.Json

namespace SchemaGraph

/-- The compact text of a value. -/
def Value.text (value : Value) : String := String.ofList (Json.valueChars value)

end SchemaGraph
