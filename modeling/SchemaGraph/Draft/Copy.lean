import SchemaGraph.Draft.Basic
/-!
# Draft.Copy -- copying types into the new graph

A member of a group is copied to the reference of its group. Any other type is copied once: its
new reference is reserved and remembered before its constituents are copied, so a cycle leads
back to it. Each nested copy remembers one more type of the source, so nesting is bounded by the
number of types.
-/

namespace SchemaGraph

set_option autoImplicit false

namespace Drafting

/-- Copies a type, with at most `depth` copies nested in each other. -/
def copyWithin (plan : Plan) : Nat → Ref → Drafting Ref
  | 0, _ => throw .exhausted
  | depth + 1, old => do
    match plan.source.node? old with
    | none => refuse (.notInSource old)
    | some node =>
      match plan.groupOf? old with
      | some group => groupRef group
      | none =>
        match (← get).copied.get? old with
        | some new => pure new
        | none =>
          if node.kind.isPrimitive then
            let new ← add node none
            remember old new
            pure new
          else
            let slot ← reserve
            remember old slot
            let children ← node.children.mapM (copyWithin plan depth)
            add ⟨node.type.withChildren children, node.attributes⟩ (some slot)

/-- Maps a type of the source into the new graph. -/
def copy (plan : Plan) (old : Ref) : Drafting Ref := copyWithin plan (plan.source.size + 1) old

end Drafting

end SchemaGraph
