import SchemaGraph.Graph.Walk
/-!
# Graph.Recursion -- types on a cycle of references

The references from type to constituent are the edges of a directed graph. A type is recursive if it
is in a strongly connected component with others, or if it refers to itself. How the components are
found is left open: a `ComponentSearch` does it.

* `Graph.recursiveTypes`: the recursive types, by the components that a search finds.
* `mutualComponents`: a search that puts together what leads to each other.
-/

namespace SchemaGraph

set_option autoImplicit false

/-! ## Components -/

/-- A way to find the strongly connected components of a directed graph, from the number of its nodes
and from its edges. -/
abbrev ComponentSearch := Nat → List (Ref × Ref) → List (List Ref)

/-- A component is trivial if it is a single node without an edge to itself. -/
def isTrivial (edges : List (Ref × Ref)) : List Ref → Bool
  | [r] => edges.all fun edge => edge ≠ (r, r)
  | _ => false

/-- The list in parts: each first element that is left, with the elements of its own part. -/
def partsBy (part : Ref → List Ref) : List Ref → List (List Ref)
  | [] => []
  | r :: rest =>
    let own := part r
    (r :: rest.filter (· ∈ own)) :: partsBy part (rest.removeAll own)
termination_by refs => refs.length
decreasing_by exact Nat.lt_succ_of_le (List.length_filter_le _ _)

/-- The nodes that edges lead to from the given one, which is one of them. -/
def ledTo (size : Nat) (edges : List (Ref × Ref)) (r : Ref) : List Ref :=
  explore (fun a => (edges.filter fun edge => edge.1 = a).map Prod.snd) (List.range size) [r]

/-- Two nodes are in one component if each leads to the other. -/
def mutualComponents : ComponentSearch := fun size edges =>
  let turned := edges.map Prod.swap
  partsBy
    (fun r =>
      let leading := ledTo size turned r
      (ledTo size edges r).filter (· ∈ leading))
    (List.range size)

namespace Graph

variable (g : Graph)

/-- The references from type to constituent, by type, with repetitions. -/
def dependencies : List (Ref × Ref) :=
  g.refs.flatMap fun r => (g.children r).map fun child => (r, child)

/-- The recursive types, in increasing order: all but those that are trivial components. -/
def recursiveTypes (components : ComponentSearch) : List Ref :=
  let edges := g.dependencies
  let cyclic := (components g.size edges).filter fun component => !isTrivial edges component
  firsts (sorted (fun a b => decide (a ≤ b)) cyclic.flatten)

/-- Whether the type takes part in a cycle of references. -/
def isRecursive (components : ComponentSearch) (r : Ref) : Bool :=
  decide (r ∈ g.recursiveTypes components)

end Graph

end SchemaGraph
