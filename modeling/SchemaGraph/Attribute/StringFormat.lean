import SchemaGraph.Attribute.Bag
import SchemaGraph.Ordered.Set
/-!
# Attribute.StringFormat -- the formats of string types

A string type may carry a format attribute that says what its samples look like. A target keeps
some of the formats distinct; a string type of any other format is a plain string there.

* `KeptFormats.strip_get?_format`: what is left of the format attribute names a kept format.
-/

namespace SchemaGraph

set_option autoImplicit false

/-- A format recognized in samples of strings. -/
inductive StringFormat where
  | date
  | time
  | dateTime
  | uuid
  | uri
  | integerString
  | boolString
deriving DecidableEq, Repr

namespace StringFormat

def all : List StringFormat := [date, time, dateTime, uuid, uri, integerString, boolString]

def name : StringFormat → String
  | date => "date"
  | time => "time"
  | dateTime => "date-time"
  | uuid => "uuid"
  | uri => "uri"
  | integerString => "integer-string"
  | boolString => "bool-string"

/-- The format of a name. -/
def ofName? (text : String) : Option StringFormat := all.find? fun format => format.name = text

end StringFormat

/-- The string formats that a target keeps distinct from plain strings. -/
abbrev KeptFormats := OrderedSet StringFormat

namespace KeptFormats

/-- Every format is kept. -/
def all : KeptFormats := .ofList StringFormat.all

/-- Whether a format attribute names a kept format. -/
def keeps (kept : KeptFormats) : Value → Bool
  | .string text =>
    match StringFormat.ofName? text with
    | some format => decide (format ∈ kept)
    | none => false
  | _ => false

/-- Takes the format attribute of a string type out, unless it names a kept format. -/
def strip (kept : KeptFormats) (bag : Bag) : Bag :=
  match bag.get? AttributeKind.format with
  | none => bag
  | some value => if kept.keeps value then bag else bag.erase AttributeKind.format

theorem strip_get?_format {kept : KeptFormats} {bag : Bag} {value : Value}
    (found : (kept.strip bag).get? AttributeKind.format = some value) :
    kept.keeps value = true := by
  rw [strip] at found
  split at found
  · rename_i absent
    rw [absent] at found
    cases found
  · rename_i stored present
    by_cases keep : kept.keeps stored = true
    · rw [if_pos keep, present] at found
      exact Option.some.inj found ▸ keep
    · rw [if_neg keep, Bag.get?_erase, if_pos rfl] at found
      cases found

end KeptFormats

end SchemaGraph
