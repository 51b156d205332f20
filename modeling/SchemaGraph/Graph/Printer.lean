import SchemaGraph.Graph.Basic
import SchemaGraph.Json.Printer
/-!
# Graph.Printer -- graphs as JSON text

A graph is written as an object with the top-level names and the list of its types. A type is an
object that names its kind first, then what belongs to the kind, and last its attributes, which
are left out when there are none.
-/

namespace SchemaGraph

set_option autoImplicit false

open Json

def Property.chars (property : Property) : List Char :=
  objectChars [memberChars "type" (natChars property.type),
    memberChars "optional" (boolChars property.optional)]

/-- The members that belong to the kind of a type. -/
def Ty.fieldChars : Ty → List (List Char)
  | .primitive _ => []
  | .array items => [memberChars "items" (natChars items)]
  | .map values => [memberChars "values" (natChars values)]
  | .enum cases => [memberChars "cases" (arrayChars (cases.toList.map stringChars))]
  | .union members => [memberChars "members" (arrayChars (members.toList.map natChars))]
  | .record r =>
    [memberChars "properties"
      (objectChars (r.properties.entries.map fun entry => memberChars entry.1 entry.2.chars)),
     memberChars "fixed" (boolChars r.fixed)]

def Bag.chars (bag : Bag) : List Char :=
  objectChars (bag.entries.map fun entry => memberChars entry.1 (valueChars entry.2))

def Node.chars (node : Node) : List Char :=
  objectChars (memberChars "kind" (stringChars node.kind.name) :: node.type.fieldChars ++
    if node.attributes.isEmpty then [] else [memberChars "attributes" node.attributes.chars])

namespace Graph

variable (g : Graph)

def chars : List Char :=
  objectChars
    [memberChars "top-levels"
      (objectChars (g.tops.entries.map fun entry => memberChars entry.1 (natChars entry.2))),
     memberChars "types" (arrayChars (g.nodes.toList.map Node.chars))]

/-- The compact JSON text of the graph. -/
def text : String := String.ofList g.chars

end Graph

end SchemaGraph
