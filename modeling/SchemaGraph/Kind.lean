/-!
# Kind -- the kinds of types

The closed set of kinds, in the order in which the members of a union are built. The first six
are the primitive kinds: a primitive type is nothing but its kind.
-/

namespace SchemaGraph

set_option autoImplicit false

/-- A type without constituents. -/
inductive Primitive where
  | any
  | null
  | bool
  | integer
  | double
  | string
deriving DecidableEq, Repr, Inhabited

/-- The kind of a type. A record is a class of objects with named properties. -/
inductive Kind where
  | any
  | null
  | bool
  | integer
  | double
  | string
  | array
  | map
  | enum
  | union
  | record
deriving DecidableEq, Repr, Inhabited

def Primitive.kind : Primitive → Kind
  | .any => .any
  | .null => .null
  | .bool => .bool
  | .integer => .integer
  | .double => .double
  | .string => .string

namespace Kind

/-- Every kind, in order. -/
def all : List Kind :=
  [any, null, bool, integer, double, string, array, map, enum, union, record]

theorem mem_all (kind : Kind) : kind ∈ all := by cases kind <;> decide

/-- The primitive type of the kind, if the kind is primitive. -/
def primitive? : Kind → Option Primitive
  | any => some .any
  | null => some .null
  | bool => some .bool
  | integer => some .integer
  | double => some .double
  | string => some .string
  | _ => none

def isPrimitive (kind : Kind) : Bool := kind.primitive?.isSome

def isNumber : Kind → Bool
  | integer => true
  | double => true
  | _ => false

def name : Kind → String
  | any => "any"
  | null => "null"
  | bool => "bool"
  | integer => "integer"
  | double => "double"
  | string => "string"
  | array => "array"
  | map => "map"
  | enum => "enum"
  | union => "union"
  | record => "class"

/-- The kind of a name. -/
def ofName? (text : String) : Option Kind := all.find? fun kind => kind.name = text

@[simp] theorem primitive?_kind (p : Primitive) : p.kind.primitive? = some p := by
  cases p <;> rfl

theorem primitive?_eq_some_iff {kind : Kind} {p : Primitive} :
    kind.primitive? = some p ↔ kind = p.kind := by
  cases kind <;> cases p <;> decide

theorem ofName?_name (kind : Kind) : ofName? kind.name = some kind := by
  cases kind <;> decide

end Kind

end SchemaGraph
