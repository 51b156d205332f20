import SchemaGraph.Json.Value
/-!
# Attribute.Bag -- the attributes of a type

A bag holds at most one JSON value for each kind of attribute and lists them in the order of the
names of the kinds, whatever the order in which they came.

* `Bag.get?_insert`, `Bag.get?_erase`: what a write and a removal do, seen by look-up.
-/

namespace SchemaGraph

set_option autoImplicit false

/-- The attributes of a type: a JSON value for each kind of attribute. -/
structure Bag where
  /-- The attributes, by name of their kind. -/
  entries : List (String × Value)
  increasing : Increasing entries
deriving DecidableEq

/-! ## The standard kinds -/

namespace AttributeKind

/-- The names inferred for a type, from the keys that it was found under. -/
def names : String := "names"

/-- Descriptions gathered from the samples. -/
def description : String := "description"

/-- Names that a user gave to the accessors of properties. -/
def accessorNames : String := "accessor-names"

/-- The format of a string type. -/
def format : String := "format"

end AttributeKind

namespace Bag

/-- The bag without attributes. -/
def empty : Bag := ⟨[], .nil⟩

instance : Inhabited Bag := ⟨empty⟩

def get? (bag : Bag) (kind : String) : Option Value := lookupKey kind bag.entries

/-- Gives a kind its value, in place of any value that it had. -/
def insert (bag : Bag) (kind : String) (value : Value) : Bag :=
  ⟨insertKey kind value bag.entries, bag.increasing.insertKey⟩

/-- Takes a kind out. -/
def erase (bag : Bag) (kind : String) : Bag :=
  ⟨eraseKey kind bag.entries, bag.increasing.eraseKey⟩

/-- The bag of a list of attributes; of a kind that is given twice the last value counts. -/
def ofList (attributes : List (String × Value)) : Bag :=
  attributes.foldl (fun bag entry => bag.insert entry.1 entry.2) empty

def size (bag : Bag) : Nat := bag.entries.length

def isEmpty (bag : Bag) : Bool := bag.entries.isEmpty

def kinds (bag : Bag) : List String := bag.entries.map Prod.fst

/-- The bag that holds the given inferred names. -/
def ofNames (names : List String) : Bag :=
  empty.insert AttributeKind.names (.array (names.map .string))

/-- The inferred names: the strings of a list, or a single string. -/
def names (bag : Bag) : List String :=
  match bag.get? AttributeKind.names with
  | some (.array items) => items.filterMap Value.string?
  | some (.string name) => [name]
  | _ => []

@[simp] theorem get?_empty (kind : String) : empty.get? kind = none := rfl

theorem get?_insert (bag : Bag) (kind other : String) (value : Value) :
    (bag.insert kind value).get? other = if kind = other then some value else bag.get? other :=
  lookupKey_insertKey bag.increasing

theorem get?_erase (bag : Bag) (kind other : String) :
    (bag.erase kind).get? other = if kind = other then none else bag.get? other :=
  lookupKey_eraseKey

end Bag

end SchemaGraph
