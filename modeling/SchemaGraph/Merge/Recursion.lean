import SchemaGraph.Merge.Unify
/-!
# Merge.Recursion -- copying and unifying as functions that call each other

The bodies of the functions that copy and unify types, with the functions that they call in place of a
bound: copying calls itself for the constituents of a type, and building a type of one kind calls itself
by way of unifying the constituents of its contributors, of which it may build the types, or the members.
`build` is the bounded function in the place of the second one.
-/

namespace SchemaGraph

set_option autoImplicit false

/-- What building a type of one kind is asked for: the kind, its contributors, the attributes, and the
reference reserved for it. -/
structure BuildCall where
  kind : Kind
  refs : OrderedSet Ref
  attributes : Bag
  slot : Ref

namespace Drafting

/-- Copies a type, the constituents by `inner`. -/
def copyBy (plan : Plan) (inner : Ref → Drafting Ref) (old : Ref) : Drafting Ref := do
  match plan.source.node? old with
  | none => refuse (.notInSource old)
  | some node =>
    match plan.groupOf? old with
    | some group => groupRef group
    | none =>
      match (← get).copied.get? old with
      | some new => pure new
      | none =>
        if node.kind.isPrimitive then
          let new ← add node none
          remember old new
          pure new
        else
          let slot ← reserve
          remember old slot
          let children ← node.children.mapM inner
          add ⟨node.type.withChildren children, node.attributes⟩ (some slot)

variable (plan : Plan) (unifier : Unifier) (build : BuildCall → Drafting Ref)

/-- The member of a union for the contributors to one kind. -/
def memberBy (slot : Ref) (part : Kind × OrderedSet Ref) : Drafting Ref := do
  match ← alone? plan part.2 slot with
  | some single => copy plan single
  | none =>
    match ← lookupUnion part.2 with
    | some r => pure r
    | none =>
      let member ← reserve
      registerUnion part.2 member
      let attributes ← combineAttributes plan unifier.registry part.2.toList
      build ⟨part.1, part.2, attributes, member⟩

/-- The type for the contributors to all kinds. -/
def partsBy (attributes : Bag) (slot : Ref) : List (Kind × OrderedSet Ref) → Drafting Ref
  | [(kind, refs)] => build ⟨kind, refs, attributes, slot⟩
  | parts => do
    let members ← parts.mapM (memberBy plan unifier build slot)
    add ⟨.union (.ofList members), attributes⟩ (some slot)

/-- Makes the type for a set of types in a slot. -/
def intoBy (types : OrderedSet Ref) (attributes : Bag) (slot : Ref) : Drafting Ref := do
  registerUnion types slot
  checkInside plan types
  let parts := plan.source.contributors unifier.conflate types.toList
  report (.unifying types.size slot parts.length)
  partsBy plan unifier build attributes slot parts

/-- Unifies a set of types with the given attributes. A slot that is given is filled. -/
def unifyBy (types : OrderedSet Ref) (attributes : Bag) (slot? : Option Ref) : Drafting Ref := do
  if types.isEmpty then throw (.fault (.merge .nothingToMerge))
  else
    match slot? with
    | some slot => intoBy plan unifier build types attributes slot
    | none =>
      match ← known? plan types with
      | some r => pure r
      | none =>
        let slot ← reserve
        intoBy plan unifier build types attributes slot

/-- Unifies a set of types with the combination of their own attributes. -/
def unifySetBy (types : OrderedSet Ref) : Drafting Ref := do
  let attributes ← combineAttributes plan unifier.registry types.toList
  unifyBy plan unifier build types attributes none

/-- Builds the type of one kind, over what its constituents are unified into. -/
def buildBy (call : BuildCall) : Drafting Ref :=
  buildKind plan (unifySetBy plan unifier build) call.kind call.refs call.attributes call.slot

/-- Builds the type of one kind, with at most `depth` unifications nested in each other. -/
def buildWithin (depth : Nat) (call : BuildCall) : Drafting Ref :=
  let inner (types : OrderedSet Ref) : Drafting Ref := do
    let attributes ← combineAttributes plan unifier.registry types.toList
    unifyWithin plan unifier depth types attributes none
  buildKind plan inner call.kind call.refs call.attributes call.slot

/-- Builds the type of one kind, as unifying does. -/
def buildType (call : BuildCall) : Drafting Ref :=
  buildWithin plan unifier (unifyDepth plan) call

end Drafting

end SchemaGraph
