import SchemaGraph.Graph.Basic
import SchemaGraph.Json.Reader
/-!
# Graph.Reader -- graphs from JSON text

The reader accepts more than the printer writes: members in any order, unknown members, kinds by
number, properties as short arrays, and a graph as an array of its two parts. Of a name that is
given twice the last value counts, at the first position; a member of a type that is given twice
is refused.

The attributes of a type are read as they come. Its other members are first read as they are, up
to the end of the type, and then looked through: so a fault in the text of a type counts before a
wrong member, and a wrong member before anything behind the type.
-/

namespace SchemaGraph

set_option autoImplicit false

/-- Why a text is not the text of a graph. -/
inductive ReadFault where
  /-- The text is not JSON, or JSON of another shape. -/
  | text (fault : Json.TextFault)
  /-- The text describes a graph that is not valid. -/
  | graph (fault : GraphFault)
deriving DecidableEq, Repr

namespace Reading

open Json

/-! ## Members that were read before -/

/-- A member that may be given once. -/
def single (fields : List (String × Value)) (name : String) : Except TextFault (Option Value) :=
  match fields.filter fun field => field.1 = name with
  | [] => .ok none
  | [field] => .ok (some field.2)
  | _ => .error .misshapen

/-- A member that must be given once. -/
def required (fields : List (String × Value)) (name : String) : Except TextFault Value := do
  match ← single fields name with
  | some value => .ok value
  | none => .error .misshapen

def asRef : Value → Except TextFault Ref
  | .int (.ofNat n) => .ok n
  | _ => .error .misshapen

def asBool : Value → Except TextFault Bool
  | .bool b => .ok b
  | _ => .error .misshapen

def asString : Value → Except TextFault String
  | .string s => .ok s
  | _ => .error .misshapen

def asItems : Value → Except TextFault (List Value)
  | .array items => .ok items
  | _ => .error .misshapen

def asFields : Value → Except TextFault (List (String × Value))
  | .object fields => .ok fields
  | _ => .error .misshapen

/-- A kind, by its name or by its number. -/
def asKind : Value → Except TextFault Kind
  | .string name =>
    match Kind.ofName? name with
    | some kind => .ok kind
    | none => .error .misshapen
  | .int (.ofNat n) =>
    match Kind.all[n]? with
    | some kind => .ok kind
    | none => .error .misshapen
  | _ => .error .misshapen

/-- A flag that is false unless it is given. -/
def flag (fields : List (String × Value)) (name : String) : Except TextFault Bool := do
  match ← single fields name with
  | some value => asBool value
  | none => .ok false

/-- A property: an object, or an array of its type and its flag. -/
def asProperty : Value → Except TextFault Property
  | .object fields => do
    let type ← asRef (← required fields "type")
    .ok ⟨type, ← flag fields "optional"⟩
  | .array [type] => do .ok ⟨← asRef type, false⟩
  | .array [type, optional] => do
    let type ← asRef type
    .ok ⟨type, ← asBool optional⟩
  | _ => .error .misshapen

def asNamedProperty (field : String × Value) : Except TextFault (String × Property) := do
  .ok (field.1, ← asProperty field.2)

def asProperties (value : Value) : Except TextFault (OrderedMap String Property) := do
  let entries ← (← asFields value).mapM asNamedProperty
  .ok (.ofList entries)

def asRecord (fields : List (String × Value)) : Except TextFault Record := do
  let properties ←
    match ← single fields "properties" with
    | some value => asProperties value
    | none => .ok .empty
  .ok ⟨properties, ← flag fields "fixed"⟩

/-- The type that the members of a node describe. -/
def asType (fields : List (String × Value)) : Except TextFault Ty := do
  match ← asKind (← required fields "kind") with
  | .any => .ok (.primitive .any)
  | .null => .ok (.primitive .null)
  | .bool => .ok (.primitive .bool)
  | .integer => .ok (.primitive .integer)
  | .double => .ok (.primitive .double)
  | .string => .ok (.primitive .string)
  | .array => do .ok (.array (← asRef (← required fields "items")))
  | .map => do .ok (.map (← asRef (← required fields "values")))
  | .enum => do
    let cases ← (← asItems (← required fields "cases")).mapM asString
    .ok (.enum (.ofList cases))
  | .union => do
    let members ← (← asItems (← required fields "members")).mapM asRef
    .ok (.union (.ofList members))
  | .record => do .ok (.record (← asRecord fields))

/-! ## The stream -/

/-- A reference in the stream. -/
def readRef : Reader Ref := fun cs =>
  let text := skipBlank cs
  match text with
  | c :: _ =>
    if c = '-' ∨ c.isDigit then do
      let (number, rest) ← readNumber text
      .ok (← asRef number, rest)
    else .error (mismatch text)
  | [] => .error .malformed

/-- An object in the stream, given how to read a member. -/
def readObject {σ : Type} (member : σ → String → Reader σ) (state : σ) : Reader σ := fun cs =>
  match skipBlank cs with
  | '\x7b' :: cs => readMembers member state cs
  | cs => .error (mismatch cs)

/-- An array in the stream, given how to read an item. -/
def readArray {α : Type} (item : Reader α) : Reader (List α) := fun cs =>
  match skipBlank cs with
  | '[' :: cs => readItems item cs
  | cs => .error (mismatch cs)

/-- The names of the top-level types. -/
def readTops : Reader (OrderedMap String Ref) :=
  readObject (readMember readRef fun tops name r => tops.insert name r) .empty

/-- How many brackets are open around the attributes of a node, with their own. -/
def attributeDepth : Nat := 4

/-- How many brackets are open around the other members of a node. -/
def nodeDepth : Nat := 3

def readBag : Reader Bag :=
  readObject
    (readMember (readValue .replace (depthLimit - 1 - attributeDepth)) fun bag kind value =>
      bag.insert kind value)
    .empty

/-- What was read of a node: its attributes, if they were given, and its other members. -/
structure NodeParts where
  attributes : Option Bag
  fields : List (String × Value)

/-- A member of a node: the attributes may be given once. -/
def readNodeMember (parts : NodeParts) (key : String) : Reader NodeParts := fun cs => do
  if key = "attributes" then
    if parts.attributes.isSome then .error .misshapen
    else
      let (bag, cs) ← readBag (← takeMark ':' cs)
      .ok ({ parts with attributes := some bag }, cs)
  else
    let (value, cs) ← readValue .keep (depthLimit - 1 - nodeDepth) (← takeMark ':' cs)
    .ok ({ parts with fields := parts.fields ++ [(key, value)] }, cs)

def readNode : Reader Node := fun cs => do
  let (parts, cs) ← readObject readNodeMember ⟨none, []⟩ cs
  let type ← asType parts.fields
  .ok (⟨type, parts.attributes.getD .empty⟩, cs)

/-- What was read of a graph: each of the two parts, if it was given. -/
structure GraphParts where
  tops : Option (OrderedMap String Ref)
  nodes : Option (List Node)

/-- A member of a graph: each part may be given once, and anything else is skipped. -/
def readGraphMember (parts : GraphParts) (key : String) : Reader GraphParts := fun cs => do
  if key = "top-levels" then
    if parts.tops.isSome then .error .misshapen
    else
      let (tops, cs) ← readTops (← takeMark ':' cs)
      .ok ({ parts with tops := some tops }, cs)
  else if key = "types" then
    if parts.nodes.isSome then .error .misshapen
    else
      let (nodes, cs) ← readArray readNode (← takeMark ':' cs)
      .ok ({ parts with nodes := some nodes }, cs)
  else
    let cs ← skipValue (← takeMark ':' cs)
    .ok (parts, cs)

/-- The end of a graph that is written as an array. -/
def closeGraph (parts : GraphParts) : Reader GraphParts := fun cs => do
  .ok (parts, ← takeMark ']' cs)

/-- A graph written as an array of its parts, behind the opening bracket. Parts may be missing
from the end. -/
def readGraphItems : Reader GraphParts := fun cs =>
  match skipBlank cs with
  | ']' :: cs => .ok (⟨none, none⟩, cs)
  | cs => do
    let (tops, cs) ← readTops cs
    match skipBlank cs with
    | ']' :: cs => .ok (⟨some tops, none⟩, cs)
    | ',' :: cs =>
      match skipBlank cs with
      | ']' :: _ => .error .malformed
      | cs => do
        let (nodes, cs) ← readArray readNode cs
        closeGraph ⟨some tops, some nodes⟩ cs
    | _ => .error .malformed

def readGraphParts : Reader GraphParts := fun cs =>
  match skipBlank cs with
  | '[' :: cs => readGraphItems cs
  | '\x7b' :: cs => readMembers readGraphMember ⟨none, none⟩ cs
  | cs => .error (mismatch cs)

end Reading

open Reading in
/-- The graph of a JSON text. The graph is checked before anything behind it is read. -/
def Graph.parse (text : String) : Except ReadFault Graph := do
  let (parts, rest) ← (readGraphParts text.toList).mapError .text
  let nodes := (parts.nodes.getD []).toArray
  let graph ← (Graph.ofNodes? nodes (parts.tops.getD .empty)).mapError .graph
  (Json.finished rest).mapError .text
  .ok graph

end SchemaGraph
