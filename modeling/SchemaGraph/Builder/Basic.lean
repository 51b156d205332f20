import SchemaGraph.Attribute.StringFormat
import SchemaGraph.Graph.Basic
/-!
# Builder.Basic -- graphs under construction

Nodes are added one by one, each over references that are there already. For a cyclic type a
reference is reserved first, used as a constituent, and filled later. A primitive type without
attributes is kept once for each kind.

Operations return a new builder only when they succeed, so a failed one changes nothing.
`Builder.finish?` names the first reference that was never filled, and then checks the graph.
-/

namespace SchemaGraph

set_option autoImplicit false

/-- What a target asks of the nodes of a graph. -/
structure Target where
  /-- The formats of strings that it keeps. -/
  kept : KeptFormats
  /-- Whether properties are sorted by name. -/
  alphabetize : Bool
deriving DecidableEq

namespace Target

/-- The target that keeps every format and the order of properties. -/
def standard : Target := ⟨.all, false⟩

/-- The node as the target wants it: a string type without a format that is not kept, the
properties of a record in the order of their names. -/
def normalize (target : Target) (node : Node) : Node where
  type := if target.alphabetize then node.type.alphabetized else node.type
  attributes :=
    if node.type = .primitive .string then target.kept.strip node.attributes else node.attributes

end Target

/-- A graph under construction. -/
structure Builder where
  target : Target
  /-- The nodes that were added; nothing where a reference is only reserved. -/
  slots : Array (Option Node)
  tops : OrderedMap String Ref
  /-- The primitive types without attributes. -/
  interned : OrderedMap Primitive Ref

namespace Builder

/-- The builder of a target, without nodes. -/
def start (target : Target) : Builder := ⟨target, #[], .empty, .empty⟩

variable (b : Builder)

def size : Nat := b.slots.size

/-- The node that was added for the reference. -/
def node? (r : Ref) : Option Node := (b.slots[r]?).join

/-- Whether a node was added for the reference. -/
def isResolved (r : Ref) : Bool := (b.node? r).isSome

/-- Reserves a reference for a node to be added later. -/
def reserve : Ref × Builder := (b.size, { b with slots := b.slots.push none })

/-- Fills a reserved reference. -/
def fill (node : Node) (r : Ref) : Except GraphFault Builder :=
  match b.slots[r]? with
  | none => .error (.unknownForward r)
  | some (some _) => .error (.filledForward r)
  | some none => .ok { b with slots := b.slots.setIfInBounds r (some node) }

/-- Appends a node. -/
def push (node : Node) : Ref × Builder := (b.size, { b with slots := b.slots.push (some node) })

end Builder

/-- The primitive type of a node that has no attributes. -/
def Node.plain? (node : Node) : Option Primitive :=
  match node.type with
  | .primitive p => if node.attributes.isEmpty then some p else none
  | _ => none

namespace Builder

variable (b : Builder)

/-- Adds a node as it is: a plain primitive type once, any other node in a slot of its own. -/
def append (node : Node) : Ref × Builder :=
  match node.plain? with
  | none => b.push node
  | some p =>
    match b.interned.get? p with
    | some r => (r, b)
    | none =>
      let (r, pushed) := b.push node
      (r, { pushed with interned := pushed.interned.insert p r })

/-- Adds a node over references that are there, in the given slot if one is given. -/
def add (node : Node) (slot : Option Ref) : Except GraphFault (Ref × Builder) :=
  match node.children.find? fun r => b.size ≤ r with
  | some r => .error (.unknownConstituent r)
  | none =>
    let node := b.target.normalize node
    match slot with
    | some r => do .ok (r, ← b.fill node r)
    | none => .ok (b.append node)

/-- Adds a primitive type. -/
def addPrimitive (kind : Kind) (attributes : Bag) (slot : Option Ref) :
    Except GraphFault (Ref × Builder) :=
  match kind.primitive? with
  | none => .error (.notPrimitive kind)
  | some p => b.add ⟨.primitive p, attributes⟩ slot

/-- Names a type as a top-level type. -/
def addTop (name : String) (r : Ref) : Except GraphFault Builder :=
  if r < b.size then .ok { b with tops := b.tops.insert name r } else .error (.unknownTop r)

/-- The graph of the added nodes. -/
def finish? : Except GraphFault Graph :=
  match b.slots.findIdx? Option.isNone with
  | some slot => .error (.unresolved slot)
  | none => Graph.ofNodes? (b.slots.filterMap id) b.tops

end Builder

end SchemaGraph
