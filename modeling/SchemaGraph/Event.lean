import SchemaGraph.Fault
/-!
# Event -- what work on a graph reports on its way

Merging reports its progress as events, in order. `Event.message` gives the line shown for one,
with its level. The answers to the commands of a replacement are events too; they have no line.
-/

namespace SchemaGraph

set_option autoImplicit false

/-- The answer to a command of a replacement. -/
inductive Answer where
  | ref (r : Ref)
  | ref? (found : Option Ref)
  | done
  | node (found : Option Node)
  | fault (fault : Fault)

/-- A step that is reported. -/
inductive Event where
  /-- So many records may be merged. -/
  | candidates (count : Nat)
  /-- Records of one shape were found, the first of them being the seed. -/
  | clique (size : Nat) (seed : Ref)
  /-- So many cliques are merged in a round. -/
  | found (cliques round : Nat)
  /-- A round leaves no fewer records than there were, and is discarded. -/
  | stopped (round remaining : Nat)
  | replacing (label : String) (groups : Nat)
  | replaced (label : String) (before after : Nat)
  | combining (members : List Ref) (slot : Ref)
  | unifying (types : Nat) (slot : Ref) (kinds : Nat)
  /-- An attribute is dropped for want of a policy. -/
  | dropped (kind : String)
  /-- The replacement of the next group begins. -/
  | opened
  | answered (answer : Answer)

namespace Event

/-- The line shown for an event. -/
def message : Event → Option String
  | candidates count => some s!"TRACE {count} candidate classes"
  | clique size seed => some s!"TRACE clique of {size} classes seeded by #{seed}"
  | found cliques round =>
    let place := if round = 1 then "" else s!" in round {round}"
    some s!"DEBUG found {cliques} cliques of classes to combine{place}"
  | stopped round remaining =>
    some s!"WARN combining classes stopped at round {round} with {remaining} classes"
  | replacing label groups => some s!"DEBUG {label}: rewriting {groups} groups of types"
  | replaced label before after =>
    some s!"DEBUG {label}: {before} types before, {after} after"
  | combining members slot =>
    some s!"TRACE combining {refsDetail members} into #{slot}"
  | unifying types slot kinds =>
    some s!"TRACE unifying {types} types into #{slot} with {kinds} kinds"
  | dropped kind => some s!"TRACE dropping attribute {kind} without combination policy"
  | opened => none
  | answered _ => none

end Event

end SchemaGraph
