import SchemaGraph.Node
import SchemaGraph.Text.Quoted
/-!
# Fault -- what can be wrong with a graph

Every way in which a graph, its construction or its replacement can fail is a constructor of
`GraphFault` with the references it is about. `GraphFault.message` and `GraphFault.details` are
the texts shown for it. Merging types has faults of its own, and reports the faults of the graph
that it makes as such. A `Failure` is a fault or one of the two ways in which work ends without a
report.
-/

namespace SchemaGraph

set_option autoImplicit false

/-- The family that a fault belongs to. -/
inductive FaultFamily where
  | invalidReference
  | invalidType
  | unresolvedForward
  | duplicateForward
  | duplicateUnionKind
  | invalidGroup
  | invalidReplacement
deriving DecidableEq, Repr

/-- A fault of a graph. -/
inductive GraphFault where
  /-- A name is bound to a type that the graph does not have. -/
  | danglingTop (name : String) (r : Ref)
  /-- A type has a constituent that the graph does not have. -/
  | danglingConstituent (owner r : Ref)
  /-- A union has two members of one kind. -/
  | repeatedKind (owner : Ref) (kind : Kind)
  /-- A type is added over a constituent that is not there. -/
  | unknownConstituent (r : Ref)
  /-- A forwarding reference was never reserved. -/
  | unknownForward (r : Ref)
  /-- A forwarding reference was filled before. -/
  | filledForward (r : Ref)
  /-- A type of this kind is not primitive. -/
  | notPrimitive (kind : Kind)
  /-- A name is given to a type that is not there. -/
  | unknownTop (r : Ref)
  /-- A forwarding reference was never filled. -/
  | unresolved (slot : Ref)
  /-- A group of types to replace is empty. -/
  | emptyGroup (index : Nat)
  /-- A member of a group is not in the graph. -/
  | unknownMember (r : Ref)
  /-- A type is a member twice, of one group or of two. -/
  | sharedMember (r : Ref)
  /-- A type to copy is not in the graph. -/
  | notInSource (r : Ref)
  /-- The replacement of a group did not resolve its forwarding reference. -/
  | unresolvedGroup (label : String) (members : List Ref)
deriving DecidableEq, Repr

namespace FaultFamily

def text : FaultFamily → String
  | invalidReference => "invalid type reference"
  | invalidType => "invalid type"
  | unresolvedForward => "unresolved forwarding reference"
  | duplicateForward => "forwarding reference resolved twice"
  | duplicateUnionKind => "union members must have distinct kinds"
  | invalidGroup => "invalid replacement group"
  | invalidReplacement => "invalid replacement"

end FaultFamily

/-- A reference as it stands in the details of a fault. -/
def Ref.detail (r : Ref) : String := s!"TypeRef({r})"

/-- References in brackets. -/
def refsDetail (refs : List Ref) : String :=
  "[" ++ String.intercalate ", " (refs.map Ref.detail) ++ "]"

/-- The name of a kind as it stands in the details of a fault. -/
def Kind.detail : Kind → String
  | any => "Any"
  | null => "Null"
  | bool => "Bool"
  | integer => "Integer"
  | double => "Double"
  | string => "String"
  | array => "Array"
  | map => "Map"
  | enum => "Enum"
  | union => "Union"
  | record => "Class"

namespace GraphFault

def family : GraphFault → FaultFamily
  | danglingTop .. => .invalidReference
  | danglingConstituent .. => .invalidReference
  | repeatedKind .. => .duplicateUnionKind
  | unknownConstituent _ => .invalidReference
  | unknownForward _ => .invalidReference
  | filledForward _ => .duplicateForward
  | notPrimitive _ => .invalidType
  | unknownTop _ => .invalidReference
  | unresolved _ => .unresolvedForward
  | emptyGroup _ => .invalidGroup
  | unknownMember _ => .invalidReference
  | sharedMember _ => .invalidGroup
  | notInSource _ => .invalidReference
  | unresolvedGroup .. => .invalidReplacement

/-- What happened, within the family. -/
def cause : GraphFault → String
  | danglingTop .. => "dangling top-level type"
  | danglingConstituent .. => "dangling type reference"
  | repeatedKind .. => "in union"
  | unknownConstituent _ => "unknown constituent"
  | unknownForward _ => "unknown forwarding reference"
  | filledForward _ => "slot already filled"
  | notPrimitive _ => "not a primitive kind"
  | unknownTop _ => "unknown top-level type"
  | unresolved _ => "graph is incomplete"
  | emptyGroup _ => "empty group"
  | unknownMember _ => "in group"
  | sharedMember _ => "type in several groups"
  | notInSource _ => "not in source graph"
  | unresolvedGroup .. => "forwarding reference not resolved"

def message (fault : GraphFault) : String := fault.family.text ++ ": " ++ fault.cause

/-- The things that the fault is about. -/
def details : GraphFault → List String
  | danglingTop name r => [quoted name, r.detail]
  | danglingConstituent owner r => [owner.detail, r.detail]
  | repeatedKind owner kind => [owner.detail, kind.detail]
  | unknownConstituent r => [r.detail]
  | unknownForward r => [r.detail]
  | filledForward r => [r.detail]
  | notPrimitive kind => [kind.detail]
  | unknownTop r => [r.detail]
  | unresolved slot => [slot.detail]
  | emptyGroup index => [toString index]
  | unknownMember r => [r.detail]
  | sharedMember r => [r.detail]
  | notInSource r => [r.detail]
  | unresolvedGroup label members => [quoted label, refsDetail members]

end GraphFault

/-- Something that holds of every graph, found not to hold. -/
inductive Broken where
  /-- A candidate for merging is no record. -/
  | notRecord (r : Ref)
  /-- Two records close enough in size share too few properties for their sizes. -/
  | negativeBudget (properties overlap : Nat)
  /-- A property that two records share is missing from one of them. -/
  | missingProperty (name : String)
  /-- A union is left among types that were taken apart. -/
  | unionLeft
deriving DecidableEq, Repr

def Broken.text : Broken → String
  | .notRecord r => s!"candidate #{r} is not a class"
  | .negativeBudget properties overlap =>
    s!"negative fault budget: {properties} properties for an overlap of {overlap}"
  | .missingProperty name => s!"both classes should have property {name}"
  | .unionLeft => "unions are flattened before unification"

/-- What merging types reports. -/
inductive MergeFault where
  | graph (fault : GraphFault)
  /-- There is no type to merge. -/
  | nothingToMerge
  | broken (what : Broken)
deriving DecidableEq, Repr

def MergeFault.message : MergeFault → String
  | .graph _ => "type graph error"
  | .nothingToMerge => "cannot unify an empty set of types"
  | .broken what => "invariant violated: " ++ what.text

/-- What may go wrong while groups are replaced: a fault of the new graph, or one of the merging
that it asked for. -/
inductive Fault where
  | graph (fault : GraphFault)
  | merge (fault : MergeFault)
deriving DecidableEq, Repr

/-- The fault as merging reports it. -/
def Fault.merged : Fault → MergeFault
  | .graph fault => .graph fault
  | .merge fault => fault

/-- How work on a graph ends without a result. -/
inductive Failure where
  | fault (fault : Fault)
  /-- A type was looked up that the graph does not have. -/
  | outside (r : Ref)
  /-- The bound on nested work was reached. -/
  | exhausted
deriving DecidableEq, Repr

/-- The failure as merging reports it. -/
def Failure.merged : Failure → Failure
  | .fault reported => .fault (.merge reported.merged)
  | .outside r => .outside r
  | .exhausted => .exhausted

end SchemaGraph
