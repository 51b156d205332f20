import SchemaGraph.Graph.Walk
/-!
# Merge.Contributors -- which types merge with which

To merge a set of types its unions are taken apart, and the leaves are sorted by kind. Some kinds
subsume others that are present with them: any subsumes every kind, string subsumes enumerations,
double subsumes integers if numbers count as one, and map subsumes records. A leaf contributes to
the kind that subsumes its own.
-/

namespace SchemaGraph

set_option autoImplicit false

/-- The kind that a leaf of the given kind contributes to, among the kinds that are present. -/
def Kind.subsumedBy (conflate : Bool) (isPresent : Kind → Bool) (kind : Kind) : Kind :=
  if isPresent .any then .any
  else
    match kind with
    | .enum => if isPresent .string then .string else .enum
    | .integer => if conflate && isPresent .double then .double else .integer
    | .record => if isPresent .map then .map else .record
    | other => other

/-- Every kind, the given one first. -/
def Kind.startingWith (kind : Kind) : List Kind := kind :: Kind.all.filter fun other => other ≠ kind

namespace Graph

variable (g : Graph)

/-- The types of one kind among the given ones. -/
def ofKind (types : List Ref) (kind : Kind) : List Ref :=
  types.filter fun r => g.kind? r = some kind

/-- Whether one of the given types has the kind. -/
def hasKind (types : List Ref) (kind : Kind) : Bool := types.any fun r => g.kind? r = some kind

/-- The leaves that contribute to a kind: those of the kind itself, then those of each kind that
it subsumes. -/
def contributorsTo (conflate : Bool) (leaves : List Ref) (kind : Kind) : OrderedSet Ref :=
  .ofList <| kind.startingWith.flatMap fun own =>
    if own.subsumedBy conflate (g.hasKind leaves) = kind then g.ofKind leaves own else []

/-- The contributors to each kind that has any, in the order of the kinds. -/
def contributors (conflate : Bool) (types : List Ref) : List (Kind × OrderedSet Ref) :=
  let leaves := g.leaves types
  (Kind.all.map fun kind => (kind, g.contributorsTo conflate leaves kind)).filter
    fun entry => !entry.2.isEmpty

end Graph

end SchemaGraph
