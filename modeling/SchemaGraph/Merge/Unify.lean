import SchemaGraph.Attribute.Policy
import SchemaGraph.Merge.Contributors
import SchemaGraph.Draft.Replacement
/-!
# Merge.Unify -- one type for a set of types

`unify` makes the type of the new graph that stands for a set of types of the source. Types of
one kind merge into one type of that kind; several kinds become a union with a member for each.
A set that is replaced as a group, or was unified before, leads to the type that stands for it:
that is how recursive types end.

Each nested unification remembers one more set of types of the source, so nesting is bounded by
the number of such sets.
-/

namespace SchemaGraph

set_option autoImplicit false

/-- How types are merged. -/
structure Unifier where
  /-- How their attributes combine. -/
  registry : Registry
  /-- Whether integers merge into doubles. -/
  conflate : Bool

/-! ## Merging records -/

/-- A property of merged records: its name, the types it has in them, and whether it is
optional. -/
structure MergedProperty where
  name : String
  types : OrderedSet Ref
  optional : Bool
deriving DecidableEq

/-- A property over all records: it is optional if it is so in one of them, or missing from
one. -/
def mergeProperty (records : List Record) (name : String) : MergedProperty :=
  let having := records.filterMap fun record => record.property? name
  ⟨name, .ofList (having.map Property.type),
    having.any Property.optional || decide (having.length < records.length)⟩

/-- The properties of all records, in the order of their first occurrence. -/
def mergeProperties (records : List Record) : List MergedProperty :=
  (firsts (records.flatMap fun record => record.properties.keys)).map (mergeProperty records)

namespace Graph

variable (g : Graph)

/-- The records among the types. -/
def recordsOf (refs : OrderedSet Ref) : List Record := refs.toList.filterMap g.record?

/-- The cases of the enumerations among the types. -/
def casesOf (refs : OrderedSet Ref) : OrderedSet String :=
  .ofList <| refs.toList.flatMap fun r =>
    match g.type? r with
    | some (.enum cases) => cases.toList
    | _ => []

/-- The item types of the arrays among the types. -/
def itemsOf (refs : OrderedSet Ref) : OrderedSet Ref :=
  .ofList <| refs.toList.filterMap fun r =>
    match g.type? r with
    | some (.array items) => some items
    | _ => none

/-- The value types of the maps among the types, and the property types of the records. -/
def valuesOf (refs : OrderedSet Ref) : OrderedSet Ref :=
  .ofList <| refs.toList.flatMap fun r =>
    match g.type? r with
    | some (.map values) => [values]
    | some (.record record) => record.properties.values.map Property.type
    | _ => []

end Graph

namespace Drafting

/-! ## Attributes -/

/-- The combined attributes of types of the source. -/
def combineAttributes (plan : Plan) (registry : Registry) (refs : List Ref) : Drafting Bag := do
  let bags := refs.map plan.source.attributes
  (registry.dropped bags).forM fun kind => report (.dropped kind)
  pure (registry.combine bags)

/-! ## Building

The functions below take the unification of smaller sets, `inner`, as an argument. -/

/-- A property of the new record. -/
def buildProperty (inner : OrderedSet Ref → Drafting Ref) (merged : MergedProperty) :
    Drafting (String × Property) := do
  pure (merged.name, ⟨← inner merged.types, merged.optional⟩)

/-- The record that stands for several. It is fixed if one of them is. -/
def buildRecord (inner : OrderedSet Ref → Drafting Ref) (records : List Record) :
    Drafting Record := do
  let properties ← (mergeProperties records).mapM (buildProperty inner)
  pure ⟨.ofList properties, records.any Record.fixed⟩

/-- The type of one kind that stands for its contributors. -/
def buildKind (plan : Plan) (inner : OrderedSet Ref → Drafting Ref) (kind : Kind)
    (refs : OrderedSet Ref) (attributes : Bag) (slot : Ref) : Drafting Ref :=
  match kind with
  | .enum => add ⟨.enum (plan.source.casesOf refs), attributes⟩ (some slot)
  | .array => do
    let items ← inner (plan.source.itemsOf refs)
    add ⟨.array items, attributes⟩ (some slot)
  | .map => do
    let values ← inner (plan.source.valuesOf refs)
    add ⟨.map values, attributes⟩ (some slot)
  | .record => do
    let record ← buildRecord inner (plan.source.recordsOf refs)
    add ⟨.record record, attributes⟩ (some slot)
  | .union => throw (.fault (.merge (.broken .unionLeft)))
  | kind => addPrimitive kind attributes (some slot)

/-- A single contributor that may stand for itself: one that does not belong to the group which is
being replaced by this very union. -/
def alone? (plan : Plan) (refs : OrderedSet Ref) (slot : Ref) : Drafting (Option Ref) :=
  match refs.toList with
  | [single] => do
    let group ← lookupGroup plan refs
    pure (if group = some slot then none else some single)
  | _ => pure none

/-- The member of a union for the contributors to one kind. Members are built and not unified, for
unifying them could lead back to the union if they are replaced together. -/
def buildMember (plan : Plan) (registry : Registry) (inner : OrderedSet Ref → Drafting Ref)
    (slot : Ref) (part : Kind × OrderedSet Ref) : Drafting Ref := do
  match ← alone? plan part.2 slot with
  | some single => copy plan single
  | none =>
    match ← lookupUnion part.2 with
    | some r => pure r
    | none =>
      let member ← reserve
      registerUnion part.2 member
      let attributes ← combineAttributes plan registry part.2.toList
      buildKind plan inner part.1 part.2 attributes member

/-- The type for the contributors to all kinds. -/
def buildParts (plan : Plan) (registry : Registry) (inner : OrderedSet Ref → Drafting Ref)
    (attributes : Bag) (slot : Ref) : List (Kind × OrderedSet Ref) → Drafting Ref
  | [(kind, refs)] => buildKind plan inner kind refs attributes slot
  | parts => do
    let members ← parts.mapM (buildMember plan registry inner slot)
    add ⟨.union (.ofList members), attributes⟩ (some slot)

/-! ## Unifying -/

/-- The type that a set of types leads to without building one: the reference of its group, the
type that it was unified into, or the copy of its single element. -/
def known? (plan : Plan) (types : OrderedSet Ref) : Drafting (Option Ref) := do
  match ← lookupGroup plan types with
  | some r => pure (some r)
  | none =>
    match ← lookupUnion types with
    | some r => pure (some r)
    | none =>
      match types.toList with
      | [single] => some <$> copy plan single
      | _ => pure none

/-- Every type of the set has to be there. -/
def checkInside (plan : Plan) (types : OrderedSet Ref) : Drafting Unit :=
  match types.toList.find? fun r => !plan.source.has r with
  | some r => throw (.outside r)
  | none => pure ()

/-- Builds the type for a set of types in a slot. -/
def unifyInto (plan : Plan) (unifier : Unifier) (inner : OrderedSet Ref → Drafting Ref)
    (types : OrderedSet Ref) (attributes : Bag) (slot : Ref) : Drafting Ref := do
  registerUnion types slot
  checkInside plan types
  let parts := plan.source.contributors unifier.conflate types.toList
  report (.unifying types.size slot parts.length)
  buildParts plan unifier.registry inner attributes slot parts

/-- Unifies a set of types with the given attributes, with at most `depth` unifications nested in
each other. A slot that is given is filled. -/
def unifyWithin (plan : Plan) (unifier : Unifier) : Nat → OrderedSet Ref → Bag → Option Ref →
    Drafting Ref
  | 0, _, _, _ => throw .exhausted
  | depth + 1, types, attributes, slot? => do
    let inner (types : OrderedSet Ref) : Drafting Ref := do
      let attributes ← combineAttributes plan unifier.registry types.toList
      unifyWithin plan unifier depth types attributes none
    if types.isEmpty then throw (.fault (.merge .nothingToMerge))
    else
      match slot? with
      | some slot => unifyInto plan unifier inner types attributes slot
      | none =>
        match ← known? plan types with
        | some r => pure r
        | none =>
          let slot ← reserve
          unifyInto plan unifier inner types attributes slot

/-- A bound on nested unifications: the number of sets of types of the source, and one for a set
that was unified before. -/
def unifyDepth (plan : Plan) : Nat := Nat.pow 2 plan.source.size + 1

/-- Makes the type that stands for a set of types. Faults are those of merging. -/
def unify (plan : Plan) (unifier : Unifier) (types : OrderedSet Ref) (attributes : Bag)
    (slot? : Option Ref) : Drafting Ref :=
  ExceptT.adapt Failure.merged
    (unifyWithin plan unifier (unifyDepth plan) types attributes slot?)

end Drafting

/-- The replacement of a group by the unification of its members. -/
def Unifier.replacement (unifier : Unifier) : Replacement := fun plan members slot => do
  let attributes ← Drafting.combineAttributes plan unifier.registry members
  Drafting.unify plan unifier (.ofList members) attributes (some slot)

end SchemaGraph
