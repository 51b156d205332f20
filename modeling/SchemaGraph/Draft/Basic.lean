import SchemaGraph.Builder.Basic
import SchemaGraph.Event
import SchemaGraph.Draft.Plan
/-!
# Draft.Basic -- the new graph while it is made

Groups of types of a source graph are replaced in a draft of a new graph, and the other types
are copied into it. The draft remembers which reference of the new graph each group has, which
types were copied, and which sets of types were unified, so that every later mention of them
leads to the same new type.

Work on a draft may fail at any point; what it did before stays done.
-/

namespace SchemaGraph

set_option autoImplicit false

/-- A new graph in the making, and what was made of the source so far. -/
structure Draft where
  /-- The new graph. -/
  builder : Builder
  /-- The references of the groups, by index, once they are needed. -/
  groupRefs : OrderedMap Nat Ref
  /-- The copied types, from old to new references. -/
  copied : OrderedMap Ref Ref
  /-- The unified sets of old types, each listed in increasing order. -/
  unified : OrderedMap (List Ref) Ref
  /-- What was reported, last first. -/
  events : List Event

/-- Work on a draft. -/
abbrev Drafting := ExceptT Failure (StateM Draft)

namespace Draft

/-- The draft of a new graph without nodes. -/
def start (target : Target) : Draft := ⟨.start target, .empty, .empty, .empty, []⟩

end Draft

namespace Drafting

/-- Fails with a fault of the graph. -/
def refuse {α : Type} (fault : GraphFault) : Drafting α := throw (.fault (.graph fault))

/-- Reports an event. -/
def report (event : Event) : Drafting Unit :=
  modify fun draft => { draft with events := event :: draft.events }

/-- Does what a builder does; a fault leaves the draft as it is. -/
def build {α : Type} (operation : Builder → Except GraphFault (α × Builder)) : Drafting α := do
  let draft ← get
  match operation draft.builder with
  | .error fault => refuse fault
  | .ok (result, builder) =>
    set { draft with builder }
    pure result

/-- Reserves a reference in the new graph. -/
def reserve : Drafting Ref := build fun builder => .ok builder.reserve

/-- Adds a node to the new graph. -/
def add (node : Node) (slot : Option Ref) : Drafting Ref :=
  build fun builder => builder.add node slot

/-- Adds a primitive type to the new graph. -/
def addPrimitive (kind : Kind) (attributes : Bag) (slot : Option Ref) : Drafting Ref :=
  build fun builder => builder.addPrimitive kind attributes slot

/-- The reference of a group, reserved when it is first needed. -/
def groupRef (group : Nat) : Drafting Ref := do
  match (← get).groupRefs.get? group with
  | some r => pure r
  | none =>
    let r ← reserve
    modify fun draft => { draft with groupRefs := draft.groupRefs.insert group r }
    pure r

/-- The reference of the group that all the types belong to, if there is such a group. -/
def lookupGroup (plan : Plan) (types : OrderedSet Ref) : Drafting (Option Ref) := do
  match plan.commonGroup? types.toList with
  | none => pure none
  | some group => some <$> groupRef group

end Drafting

/-- A set of types as it is remembered: in increasing order, whatever the order it came in. -/
def unionKey (types : OrderedSet Ref) : List Ref :=
  sorted (fun a b => decide (a ≤ b)) types.toList

namespace Drafting

/-- The type that a set of types was unified into. -/
def lookupUnion (types : OrderedSet Ref) : Drafting (Option Ref) := do
  pure ((← get).unified.get? (unionKey types))

/-- Remembers the type that a set of types is unified into. -/
def registerUnion (types : OrderedSet Ref) (new : Ref) : Drafting Unit :=
  modify fun draft => { draft with unified := draft.unified.insert (unionKey types) new }

/-- Remembers the copy of a type. -/
def remember (old new : Ref) : Drafting Unit :=
  modify fun draft => { draft with copied := draft.copied.insert old new }

end Drafting

end SchemaGraph
