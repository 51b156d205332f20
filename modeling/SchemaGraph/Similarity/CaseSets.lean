import SchemaGraph.Graph.Matching
/-!
# Similarity.CaseSets -- sets of types that match kind for kind

Two sets of types match when they have the same size and every type of the first has exactly the
shape of the type of its kind in the second. Numbers of different kinds never match here.
-/

namespace SchemaGraph

set_option autoImplicit false

namespace Graph

variable (g : Graph)

/-- Whether a type has the shape of the type of its kind among the others. -/
def caseMatches (others : OrderedSet Ref) (r : Ref) : Bool :=
  match g.memberPair? false others.toList r with
  | some (member, other) => g.sameShape false member other
  | none => false

/-- Whether two sets of types of the graph match. -/
def caseSetsMatch (s t : OrderedSet Ref) : Bool :=
  decide (s.size = t.size) && s.toList.all (g.caseMatches t)

/-- Whether two sets of references match. There is no answer if a reference that the comparison
comes to designates no type: it goes through the second set, and then through the first up to the
first type that fails. -/
def caseSetsMatch? (s t : OrderedSet Ref) : Option Bool :=
  if s.size = t.size then
    if t.toList.all g.has then
      match s.toList.find? fun r => !(g.has r && g.caseMatches t r) with
      | some r => if g.has r then some false else none
      | none => some true
    else none
  else some false

end Graph

end SchemaGraph
