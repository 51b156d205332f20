import SchemaGraph.Attribute.Bag
import SchemaGraph.Kind
import SchemaGraph.Ordered.Map
/-!
# Node -- types and the nodes that hold them

A type refers to its constituents by reference, so types may be shared and may be cyclic. A
reference is the index of a node and has a meaning only in the graph, or the graph under
construction, that it belongs to.

* `Ty.children`: the constituents, in the order in which they are declared.
* `Ty.withChildren`, `Ty.mapRefs`: the same type over other constituents;
  `Ty.withChildren_map` says that they agree.
-/

namespace SchemaGraph

set_option autoImplicit false

/-- A reference to a type: the index of its node. -/
abbrev Ref := Nat

/-- A property of a record. -/
structure Property where
  type : Ref
  optional : Bool
deriving DecidableEq, Repr

/-- A record type: named properties in order. A fixed record must not be restructured. -/
structure Record where
  properties : OrderedMap String Property
  fixed : Bool
deriving DecidableEq, Repr

namespace Record

def property? (record : Record) (name : String) : Option Property := record.properties.get? name

def size (record : Record) : Nat := record.properties.size

def isEmpty (record : Record) : Bool := record.properties.isEmpty

end Record

/-- A type, over references to its constituents. -/
inductive Ty where
  | primitive (p : Primitive)
  | array (items : Ref)
  | map (values : Ref)
  | enum (cases : OrderedSet String)
  | union (members : OrderedSet Ref)
  | record (r : Record)
deriving DecidableEq, Repr

namespace Ty

def kind : Ty → Kind
  | primitive p => p.kind
  | array _ => .array
  | map _ => .map
  | enum _ => .enum
  | union _ => .union
  | record _ => .record

/-- The direct constituents, in order. -/
def children : Ty → List Ref
  | primitive _ => []
  | array items => [items]
  | map values => [values]
  | enum _ => []
  | union members => members.toList
  | record r => r.properties.values.map Property.type

/-- The record, if the type is one. -/
def record? : Ty → Option Record
  | record r => some r
  | _ => none

/-! ## Other constituents -/

/-- The type with every constituent replaced by its image; members of a union with one image
become one member. -/
def mapRefs (f : Ref → Ref) : Ty → Ty
  | primitive p => primitive p
  | array items => array (f items)
  | map values => map (f values)
  | enum cases => enum cases
  | union members => union (members.map f)
  | record r =>
    record { r with properties := r.properties.mapValues fun p => { p with type := f p.type } }

/-- The properties with their types replaced by the given ones, in order. -/
def retype : List (String × Property) → List Ref → List (String × Property)
  | (name, p) :: rest, r :: refs => (name, { p with type := r }) :: retype rest refs
  | rest, _ => rest

theorem keys_retype (entries : List (String × Property)) (refs : List Ref) :
    (retype entries refs).map Prod.fst = entries.map Prod.fst := by
  induction entries generalizing refs with
  | nil => cases refs <;> rfl
  | cons entry rest ih =>
    cases refs with
    | nil => rfl
    | cons r refs => simp [retype, ih]

/-- The type over the given constituents, one for each of its own. -/
def withChildren : Ty → List Ref → Ty
  | array _, items :: _ => array items
  | map _, values :: _ => map values
  | union _, members => union (.ofList members)
  | record r, refs =>
    record { r with
      properties := ⟨retype r.properties.entries refs, by
        rw [keys_retype]; exact r.properties.nodup⟩ }
  | type, _ => type

theorem retype_map (f : Ref → Ref) (entries : List (String × Property)) :
    retype entries ((entries.map Prod.snd).map fun p => f p.type)
      = entries.map fun entry => (entry.1, { entry.2 with type := f entry.2.type }) := by
  induction entries with
  | nil => rfl
  | cons entry rest ih => simpa [retype] using ih

/-- Replacing the constituents by their images is mapping them. -/
theorem withChildren_map (f : Ref → Ref) (type : Ty) :
    type.withChildren (type.children.map f) = type.mapRefs f := by
  cases type with
  | primitive p => rfl
  | array items => rfl
  | map values => rfl
  | enum cases => rfl
  | union members => rfl
  | record r =>
    simp only [withChildren, children, mapRefs, OrderedMap.values, OrderedMap.mapValues,
      record.injEq, Record.mk.injEq, and_true]
    apply OrderedMap.ext
    have same := retype_map f r.properties.entries
    simpa [List.map_map, Function.comp_def] using same

@[simp] theorem kind_mapRefs (f : Ref → Ref) (type : Ty) : (type.mapRefs f).kind = type.kind := by
  cases type <;> rfl

/-- The properties of a record in the order of their names. -/
def alphabetized : Ty → Ty
  | record r =>
    let entries := sorted (fun x y => decide (x.1 ≤ y.1)) r.properties.entries
    record { r with
      properties := ⟨entries, ((perm_sorted _ _).map Prod.fst).nodup_iff.2 r.properties.nodup⟩ }
  | type => type

@[simp] theorem kind_alphabetized (type : Ty) : type.alphabetized.kind = type.kind := by
  cases type <;> rfl

end Ty

/-- A type and its attributes. -/
structure Node where
  type : Ty
  attributes : Bag
deriving DecidableEq

namespace Node

def kind (node : Node) : Kind := node.type.kind

def children (node : Node) : List Ref := node.type.children

end Node

end SchemaGraph
