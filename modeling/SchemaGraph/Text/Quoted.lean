import SchemaGraph.Text.Unprintable
/-!
# Text.Quoted -- text in quotes

A quoted text stands between double quotes. The quote, the backslash and the four characters with
short names are escaped by a backslash, and every other unprintable character by its code point
in braces.
-/

namespace SchemaGraph

set_option autoImplicit false

/-- A character as it stands between the quotes. -/
def quotedChar (c : Char) : List Char :=
  if c = '"' then ['\\', '"']
  else if c = '\\' then ['\\', '\\']
  else if c = '\x00' then ['\\', '0']
  else if c = '\n' then ['\\', 'n']
  else if c = '\r' then ['\\', 'r']
  else if c = '\t' then ['\\', 't']
  else if isUnprintable c then '\\' :: 'u' :: '\x7b' :: Nat.toDigits 16 c.toNat ++ ['\x7d']
  else [c]

/-- The text in quotes. -/
def quoted (text : String) : String :=
  String.ofList ('"' :: text.toList.flatMap quotedChar ++ ['"'])

end SchemaGraph
