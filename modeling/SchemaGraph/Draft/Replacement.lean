import SchemaGraph.Draft.Copy
/-!
# Draft.Replacement -- replacing groups of types

Every group of a plan is replaced by one new type, and all else that the top-level types lead to
is copied. The replacement of a group is given the reference reserved for the group, and has
to fill it and return it.
-/

namespace SchemaGraph

set_option autoImplicit false

/-- How a group is replaced, given its members and the reference reserved for it. -/
abbrev Replacement := Plan → List Ref → Ref → Drafting Ref

namespace Drafting

/-- Replaces one group. -/
def replaceGroup (plan : Plan) (label : String) (replacement : Replacement)
    (group : List Ref × Nat) : Drafting Unit := do
  let slot ← groupRef group.2
  let new ← replacement plan group.1 slot
  unless new = slot ∧ (← get).builder.isResolved slot do
    refuse (.unresolvedGroup label group.1)

/-- Binds the name of a top-level type to its copy. -/
def bindTop (plan : Plan) (top : String × Ref) : Drafting Unit := do
  let new ← copy plan top.2
  build fun builder => do .ok ((), ← builder.addTop top.1 new)

/-- Replaces the groups in order, then copies the top-level types in order. -/
def replaceAll (plan : Plan) (label : String) (replacement : Replacement) : Drafting Graph := do
  plan.groups.zipIdx.forM (replaceGroup plan label replacement)
  plan.source.tops.entries.forM (bindTop plan)
  match (← get).builder.finish? with
  | .error fault => refuse fault
  | .ok graph =>
    report (.replaced label plan.source.size graph.size)
    pure graph

end Drafting

/-- A graph that was worked on, or why there is none, and what was reported, in order. -/
structure Outcome where
  result : Except Failure Graph
  events : List Event

namespace Graph

/-- The graph with each group of types replaced by one new type. -/
def replaceGroups (source : Graph) (label : String) (target : Target) (groups : List (List Ref))
    (replacement : Replacement) : Outcome :=
  let begun := Event.replacing label groups.length
  match Plan.ofGroups? source groups with
  | .error fault => ⟨.error (.fault (.graph fault)), [begun]⟩
  | .ok plan =>
    let (result, draft) := (Drafting.replaceAll plan label replacement).run.run (Draft.start target)
    ⟨result, begun :: draft.events.reverse⟩

end Graph

end SchemaGraph
