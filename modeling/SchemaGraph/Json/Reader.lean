import SchemaGraph.Json.Value
import SchemaGraph.Ordered.Map
/-!
# Json.Reader -- reading JSON texts as a stream

A reader takes what it needs from the front of a text and returns the rest. A text is refused in
one of two ways: `malformed` when it is no JSON text at all, `misshapen` when it is one but not
of the shape asked for. Text is read once, from the left, so of two faults the first one counts.

* `readNumeral`, `Numeral.value?`: integers that fit 64 bits are read exactly; other numbers are
  read as a 64 bit significand and a power of ten.
* `readMembers`, `readItems`: the members of an object and the items of an array, given how to
  read one of them. An object is read member by member, so a repeated key can be refused where
  it stands.
* `readValue depth`: any value with at most `depth` brackets open at once.
* `skipValue`: any value of any depth, read for its grammar only.
-/

namespace SchemaGraph.Json

set_option autoImplicit false

/-- Why a text cannot be read. -/
inductive TextFault where
  /-- The text is not JSON. -/
  | malformed
  /-- The text is JSON of another shape. -/
  | misshapen
deriving DecidableEq, Repr

/-- Takes a result from the front of a text and returns it with the rest. -/
abbrev Reader (α : Type) := List Char → Except TextFault (α × List Char)

/-! ## Blanks and fixed characters -/

def isBlank (c : Char) : Bool := c == ' ' || c == '\t' || c == '\n' || c == '\r'

/-- The text without the blanks in front of it. -/
def skipBlank (cs : List Char) : List Char := cs.dropWhile isBlank

/-- Takes exactly the given characters. -/
def takeWord : List Char → List Char → Except TextFault (List Char)
  | [], cs => .ok cs
  | w :: word, c :: cs => if w = c then takeWord word cs else .error .malformed
  | _ :: _, [] => .error .malformed

/-- Takes one character, after blanks. -/
def takeMark (mark : Char) (cs : List Char) : Except TextFault (List Char) :=
  takeWord [mark] (skipBlank cs)

/-! ## Numbers -/

/-- The parts of a number as it is written. -/
structure Numeral where
  negative : Bool
  whole : List Char
  fraction : List Char
  /-- The sign, true for minus, and the digits of the exponent. -/
  exponent : Option (Bool × List Char)
deriving DecidableEq, Repr

/-- One or more digits. -/
def readDigits : Reader (List Char) := fun cs =>
  match cs.takeWhile Char.isDigit with
  | [] => .error .malformed
  | digits => .ok (digits, cs.dropWhile Char.isDigit)

/-- A whole number: nothing may follow a zero in front. -/
def readWhole : Reader (List Char) := fun cs => do
  let (digits, rest) ← readDigits cs
  if digits.head? = some '0' ∧ digits.length ≠ 1 then .error .malformed else .ok (digits, rest)

def readFraction : Reader (List Char)
  | '.' :: cs => readDigits cs
  | cs => .ok ([], cs)

def readExponentDigits : Reader (Bool × List Char)
  | '-' :: cs => do
    let (digits, rest) ← readDigits cs
    .ok ((true, digits), rest)
  | '+' :: cs => do
    let (digits, rest) ← readDigits cs
    .ok ((false, digits), rest)
  | cs => do
    let (digits, rest) ← readDigits cs
    .ok ((false, digits), rest)

def readExponent : Reader (Option (Bool × List Char)) := fun text =>
  match text with
  | c :: cs =>
    if c = 'e' ∨ c = 'E' then do
      let (exponent, rest) ← readExponentDigits cs
      .ok (some exponent, rest)
    else .ok (none, text)
  | [] => .ok (none, text)

/-- A number without its minus sign. -/
def readUnsigned (negative : Bool) : Reader Numeral := fun cs => do
  let (whole, cs) ← readWhole cs
  let (fraction, cs) ← readFraction cs
  let (exponent, cs) ← readExponent cs
  .ok (⟨negative, whole, fraction, exponent⟩, cs)

def readNumeral : Reader Numeral
  | '-' :: cs => readUnsigned true cs
  | cs => readUnsigned false cs

/-- The greatest significand, and the greatest integer. -/
def greatestSignificand : Nat := Nat.pow 2 64 - 1

/-- Appends digits to a significand for as long as it stays in range; also gives the digits that
are left over. -/
def appendDigits (significand : Nat) : List Char → Nat × List Char
  | [] => (significand, [])
  | c :: rest =>
    let next := 10 * significand + (c.toNat - '0'.toNat)
    if next ≤ greatestSignificand then appendDigits next rest else (significand, c :: rest)

/-- The number as a significand and a power of ten. Whole digits that do not fit the significand
still count in the power; further digits of the fraction are ignored. -/
def Numeral.scaled (n : Numeral) : Nat × Int :=
  let (whole, dropped) := appendDigits 0 n.whole
  let (significand, ignored) := appendDigits whole n.fraction
  let places : Int := (dropped.length : Int) - (n.fraction.length - ignored.length : Nat)
  let exponent : Int :=
    match n.exponent with
    | none => 0
    | some (true, digits) => -(Nat.ofDigitChars 10 digits 0 : Int)
    | some (false, digits) => Nat.ofDigitChars 10 digits 0
  (significand, places + exponent)

/-- The integer that is written, if it is written without point and exponent and fits 64 bits:
with a sign for negative numbers, without for the others. Minus zero is no integer. -/
def Numeral.int? (n : Numeral) : Option Int :=
  if n.fraction = [] ∧ n.exponent = none then
    let whole := Nat.ofDigitChars 10 n.whole 0
    if n.negative then if 0 < whole ∧ whole ≤ Nat.pow 2 63 then some (-(whole : Int)) else none
    else if whole ≤ greatestSignificand then some whole else none
  else none

/-- The value of a number; none if it is too large. -/
def Numeral.value? (n : Numeral) : Option Value :=
  match n.int? with
  | some i => some (.int i)
  | none =>
    let (significand, exponent) := n.scaled
    (Double.ofScaled n.negative significand exponent).map .double

def readNumber : Reader Value := fun cs => do
  let (numeral, cs) ← readNumeral cs
  match numeral.value? with
  | some value => .ok (value, cs)
  | none => .error .malformed

/-! ## Strings -/

def hexValue? (c : Char) : Option Nat :=
  if '0' ≤ c ∧ c ≤ '9' then some (c.toNat - '0'.toNat)
  else if 'a' ≤ c ∧ c ≤ 'f' then some (c.toNat - 'a'.toNat + 10)
  else if 'A' ≤ c ∧ c ≤ 'F' then some (c.toNat - 'A'.toNat + 10)
  else none

/-- The value of four hexadecimal digits. -/
def hexUnit? (a b c d : Char) : Option Nat := do
  let a ← hexValue? a
  let b ← hexValue? b
  let c ← hexValue? c
  let d ← hexValue? d
  some (((a * 16 + b) * 16 + c) * 16 + d)

/-- The character that a backslash and one letter stand for. -/
def shortEscape? (c : Char) : Option Char :=
  if c = '"' then some '"'
  else if c = '\\' then some '\\'
  else if c = '/' then some '/'
  else if c = 'b' then some '\x08'
  else if c = 'f' then some '\x0c'
  else if c = 'n' then some '\n'
  else if c = 'r' then some '\r'
  else if c = 't' then some '\t'
  else none

def isHighSurrogate (unit : Nat) : Bool := 0xD800 ≤ unit && unit ≤ 0xDBFF

def isLowSurrogate (unit : Nat) : Bool := 0xDC00 ≤ unit && unit ≤ 0xDFFF

/-- The characters up to the closing quote. Surrogates are read in pairs only. -/
def readStringChars : List Char → Except TextFault (List Char × List Char)
  | [] => .error .malformed
  | '"' :: rest => .ok ([], rest)
  | '\\' :: 'u' :: a :: b :: c :: d :: rest =>
    match hexUnit? a b c d with
    | none => .error .malformed
    | some unit =>
      if isLowSurrogate unit then .error .malformed
      else if isHighSurrogate unit then
        match rest with
        | '\\' :: 'u' :: a' :: b' :: c' :: d' :: rest' =>
          match hexUnit? a' b' c' d' with
          | none => .error .malformed
          | some low =>
            if isLowSurrogate low then do
              let (chars, rest) ← readStringChars rest'
              .ok (Char.ofNat (0x10000 + (unit - 0xD800) * 0x400 + (low - 0xDC00)) :: chars, rest)
            else .error .malformed
        | _ => .error .malformed
      else do
        let (chars, rest) ← readStringChars rest
        .ok (Char.ofNat unit :: chars, rest)
  | '\\' :: c :: rest =>
    match shortEscape? c with
    | none => .error .malformed
    | some escaped => do
      let (chars, rest) ← readStringChars rest
      .ok (escaped :: chars, rest)
  | c :: rest =>
    if c.toNat < 0x20 ∨ c = '\\' then .error .malformed
    else do
      let (chars, rest) ← readStringChars rest
      .ok (c :: chars, rest)

/-- A string behind its opening quote. -/
def readString : Reader String := fun cs => do
  let (chars, rest) ← readStringChars cs
  .ok (String.ofList chars, rest)

/-- The text behind a string, whose escapes need not stand for characters. -/
def skipStringChars : List Char → Except TextFault (List Char)
  | [] => .error .malformed
  | '"' :: rest => .ok rest
  | '\\' :: 'u' :: a :: b :: c :: d :: rest =>
    if (hexUnit? a b c d).isSome then skipStringChars rest else .error .malformed
  | '\\' :: c :: rest =>
    if (shortEscape? c).isSome then skipStringChars rest else .error .malformed
  | c :: rest => if c.toNat < 0x20 ∨ c = '\\' then .error .malformed else skipStringChars rest

/-! ## Items and members -/

/-- Items up to the closing bracket, at least one. Every item takes at least one character, so
the length of the text bounds their number. -/
def readItemsFrom {α : Type} (item : Reader α) : Nat → Reader (List α)
  | 0, _ => .error .malformed
  | bound + 1, cs => do
    let (first, cs) ← item cs
    match skipBlank cs with
    | ',' :: cs => do
      let (later, cs) ← readItemsFrom item bound cs
      .ok (first :: later, cs)
    | ']' :: cs => .ok ([first], cs)
    | _ => .error .malformed

/-- The items of an array behind its opening bracket. -/
def readItems {α : Type} (item : Reader α) : Reader (List α) := fun cs =>
  match skipBlank cs with
  | ']' :: cs => .ok ([], cs)
  | cs => readItemsFrom item cs.length cs

/-- Members up to the closing brace, at least one. -/
def readMembersFrom {σ : Type} (member : σ → String → Reader σ) : Nat → σ → Reader σ
  | 0, _, _ => .error .malformed
  | bound + 1, state, cs => do
    let (key, cs) ← readString (← takeMark '"' cs)
    let (state, cs) ← member state key cs
    match skipBlank cs with
    | ',' :: cs => readMembersFrom member bound state cs
    | '\x7d' :: cs => .ok (state, cs)
    | _ => .error .malformed

/-- The members of an object behind its opening brace. A member is read from behind its key. -/
def readMembers {σ : Type} (member : σ → String → Reader σ) (state : σ) : Reader σ := fun cs =>
  match skipBlank cs with
  | '\x7d' :: cs => .ok (state, cs)
  | cs => readMembersFrom member cs.length state cs

/-- A member whose value is read by `value` and taken up by `add`. -/
def readMember {σ α : Type} (value : Reader α) (add : σ → String → α → σ) :
    σ → String → Reader σ := fun state key cs => do
  let (v, cs) ← value (← takeMark ':' cs)
  .ok (add state key v, cs)

/-! ## Values -/

/-- A value that is no array and no object. -/
def readScalar : Reader Value
  | 'n' :: cs => do .ok (.null, ← takeWord ['u', 'l', 'l'] cs)
  | 't' :: cs => do .ok (.bool true, ← takeWord ['r', 'u', 'e'] cs)
  | 'f' :: cs => do .ok (.bool false, ← takeWord ['a', 'l', 's', 'e'] cs)
  | '"' :: cs => do
    let (s, cs) ← readString cs
    .ok (.string s, cs)
  | cs => readNumber cs

/-- What becomes of the members of an object that is read: all of them, or of a repeated key the
last value at the first position. -/
inductive Repeats where
  | keep
  | replace
deriving DecidableEq, Repr

def Repeats.add (repeats : Repeats) (fields : List (String × Value)) (key : String)
    (value : Value) : List (String × Value) :=
  match repeats with
  | .keep => fields ++ [(key, value)]
  | .replace => OrderedMap.put key value fields

/-- A value with at most `depth` brackets open at once. -/
def readValue (repeats : Repeats) : Nat → Reader Value
  | 0, cs =>
    match skipBlank cs with
    | '[' :: _ => .error .malformed
    | '\x7b' :: _ => .error .malformed
    | cs => readScalar cs
  | depth + 1, cs =>
    match skipBlank cs with
    | '[' :: cs => do
      let (items, cs) ← readItems (readValue repeats depth) cs
      .ok (.array items, cs)
    | '\x7b' :: cs => do
      let (fields, cs) ← readMembers (readMember (readValue repeats depth) repeats.add) [] cs
      .ok (.object fields, cs)
    | cs => readScalar cs

/-- The text behind a scalar, for its grammar only. -/
def skipScalar : List Char → Except TextFault (List Char)
  | 'n' :: cs => takeWord ['u', 'l', 'l'] cs
  | 't' :: cs => takeWord ['r', 'u', 'e'] cs
  | 'f' :: cs => takeWord ['a', 'l', 's', 'e'] cs
  | '"' :: cs => skipStringChars cs
  | cs => do
    let (_, cs) ← readNumeral cs
    .ok cs

/-- The text behind the members of an object, at least one. -/
def skipMembersFrom (value : List Char → Except TextFault (List Char)) :
    Nat → List Char → Except TextFault (List Char)
  | 0, _ => .error .malformed
  | bound + 1, cs => do
    let cs ← skipStringChars (← takeMark '"' cs)
    let cs ← value (← takeMark ':' cs)
    match skipBlank cs with
    | ',' :: cs => skipMembersFrom value bound cs
    | '\x7d' :: cs => .ok cs
    | _ => .error .malformed

/-- The text behind a value with at most `depth` brackets open at once. -/
def skipValueWithin : Nat → List Char → Except TextFault (List Char)
  | 0, cs =>
    match skipBlank cs with
    | '[' :: _ => .error .malformed
    | '\x7b' :: _ => .error .malformed
    | cs => skipScalar cs
  | depth + 1, cs =>
    match skipBlank cs with
    | '[' :: cs => do
      let item : Reader Unit := fun cs => do .ok ((), ← skipValueWithin depth cs)
      let (_, cs) ← readItems item cs
      .ok cs
    | '\x7b' :: cs =>
      match skipBlank cs with
      | '\x7d' :: cs => .ok cs
      | cs => skipMembersFrom (skipValueWithin depth) cs.length cs
    | cs => skipScalar cs

/-- The text behind a value of any depth: a text has no more brackets than characters. -/
def skipValue (cs : List Char) : Except TextFault (List Char) := skipValueWithin cs.length cs

/-- The fault of a value that stands where another kind of value is asked for: brackets are
refused at once, a scalar is read first. -/
def mismatch (cs : List Char) : TextFault :=
  match skipBlank cs with
  | '[' :: _ => .misshapen
  | '\x7b' :: _ => .misshapen
  | cs =>
    match readScalar cs with
    | .ok _ => .misshapen
    | .error fault => fault

/-- The nesting of a text is refused from this depth on. -/
def depthLimit : Nat := 128

/-- Refuses anything but blanks behind a text. -/
def finished (cs : List Char) : Except TextFault Unit :=
  if (skipBlank cs).isEmpty then .ok () else .error .malformed

/-- The value of a whole text. -/
def parseValue (text : String) : Except TextFault Value := do
  let (value, rest) ← readValue .replace (depthLimit - 1) text.toList
  finished rest
  .ok value

end SchemaGraph.Json
