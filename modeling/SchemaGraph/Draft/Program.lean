import SchemaGraph.Merge.Unify
/-!
# Draft.Program -- replacements made of commands

Besides unification, a group may be replaced by any program that gives commands to the draft and
decides by their answers how to go on. A fault is an answer like any other, so a program may go
on after one; only a lookup outside the graph and a bound that was reached end it.
-/

namespace SchemaGraph

set_option autoImplicit false

/-- A command to a draft. References to old types are to the source, all others to the new graph. -/
inductive Command where
  | unify (types : OrderedSet Ref) (attributes : Bag) (slot : Option Ref)
  | copy (old : Ref)
  | lookupGroup (types : OrderedSet Ref)
  | lookupUnion (types : OrderedSet Ref)
  | registerUnion (types : OrderedSet Ref) (new : Ref)
  | reserve
  | add (node : Node) (slot : Option Ref)
  | addPrimitive (kind : Kind) (attributes : Bag) (slot : Option Ref)
  | node (r : Ref)

namespace Drafting

/-- Carries a command out. -/
def perform (plan : Plan) (unifier : Unifier) : Command → Drafting Answer
  | .unify types attributes slot => .ref <$> unify plan unifier types attributes slot
  | .copy old => .ref <$> copy plan old
  | .lookupGroup types => .ref? <$> Drafting.lookupGroup plan types
  | .lookupUnion types => .ref? <$> Drafting.lookupUnion types
  | .registerUnion types new => do
    Drafting.registerUnion types new
    pure .done
  | .reserve => .ref <$> Drafting.reserve
  | .add node slot => .ref <$> Drafting.add node slot
  | .addPrimitive kind attributes slot => .ref <$> Drafting.addPrimitive kind attributes slot
  | .node r => do pure (.node ((← get).builder.node? r))

/-- Carries a command out, with a fault as one of the answers. -/
def attempt (plan : Plan) (unifier : Unifier) (command : Command) : Drafting Answer :=
  tryCatch (perform plan unifier command) fun
    | .fault fault => pure (.fault fault)
    | failure => throw failure

end Drafting

/-- A way to replace a group by commands. -/
inductive Program where
  /-- The group is replaced by the type. -/
  | done (new : Ref)
  /-- The replacement fails. -/
  | fail (fault : Fault)
  /-- A command is given, and its answer says how to go on. -/
  | perform (command : Command) (next : Answer → Program)

namespace Program

/-- Runs a program, reporting every answer. -/
def run (plan : Plan) (unifier : Unifier) : Program → Drafting Ref
  | done new => pure new
  | fail fault => throw (.fault fault)
  | perform command next => do
    let answer ← Drafting.attempt plan unifier command
    Drafting.report (.answered answer)
    run plan unifier (next answer)

/-- The program of a list of commands, each with whether its fault is passed over, that ends with
the given reference. -/
def ofCommands (new : Ref) : List (Command × Bool) → Program
  | [] => done new
  | (command, passOver) :: rest =>
    perform command fun
      | .fault fault => if passOver then ofCommands new rest else fail fault
      | _ => ofCommands new rest

/-- The replacement of groups by programs, each over the reference reserved for its group. -/
def replacement (unifier : Unifier) (programs : List Ref → Option (Ref → Program)) :
    Replacement := fun plan members slot => do
  Drafting.report .opened
  match programs members with
  | some program => (program slot).run plan unifier
  | none => unifier.replacement plan members slot

end Program

end SchemaGraph
