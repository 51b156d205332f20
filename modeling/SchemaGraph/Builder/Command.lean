import SchemaGraph.Builder.Basic
/-!
# Builder.Command -- building by commands

A run of a builder is a list of commands. A command that fails is answered by its fault and
leaves the builder as it is, and the run goes on.
-/

namespace SchemaGraph

set_option autoImplicit false

namespace Builder

/-- A command to a builder. -/
inductive Command where
  | reserve
  | add (node : Node) (slot : Option Ref)
  | addPrimitive (kind : Kind) (attributes : Bag) (slot : Option Ref)
  | addTop (name : String) (r : Ref)
  | isResolved (r : Ref)
  | node (r : Ref)

/-- The answer to a command that succeeds. -/
inductive Reply where
  | ref (r : Ref)
  | done
  | flag (b : Bool)
  | node (found : Option Node)

/-- Carries a command out. -/
def perform (b : Builder) : Command → Except GraphFault (Reply × Builder)
  | .reserve =>
    let (r, next) := b.reserve
    .ok (.ref r, next)
  | .add node slot => do
    let (r, next) ← b.add node slot
    .ok (.ref r, next)
  | .addPrimitive kind attributes slot => do
    let (r, next) ← b.addPrimitive kind attributes slot
    .ok (.ref r, next)
  | .addTop name r => do .ok (.done, ← b.addTop name r)
  | .isResolved r => .ok (.flag (b.isResolved r), b)
  | .node r => .ok (.node (b.node? r), b)

/-- The answer to a command, and the builder after it. -/
def step (b : Builder) (command : Command) : Except GraphFault Reply × Builder :=
  match b.perform command with
  | .ok (reply, next) => (.ok reply, next)
  | .error fault => (.error fault, b)

/-- The answers to a list of commands, and the builder after them. -/
def run (b : Builder) : List Command → List (Except GraphFault Reply) × Builder
  | [] => ([], b)
  | command :: rest =>
    let (answer, next) := b.step command
    let (answers, last) := run next rest
    (answer :: answers, last)

end Builder

end SchemaGraph
