import SchemaGraph.Builder.Command
/-!
# Builder.InPlace -- building in place

The operations of a builder as sequences of reads and writes of one builder that is overwritten. A fault
ends an operation where it is found, and what was written before stays written: nothing here undoes a
write. That no fault is found behind a write, so that an operation that fails changes nothing, is proved
where these steps are shown to do what `Builder.perform` does.
-/

namespace SchemaGraph

set_option autoImplicit false

/-- Steps on a builder that is overwritten; a fault ends them. -/
abbrev Building := ExceptT GraphFault (StateM Builder)

namespace Building

/-- Puts a slot behind the others. -/
def push (slot : Option Node) : Building Ref := do
  modify fun b => { b with slots := b.slots.push slot }
  pure ((← get).size - 1)

/-- Writes a node into the slot of a reserved reference. -/
def fill (node : Node) (r : Ref) : Building Ref := do
  match (← get).slots[r]? with
  | none => throw (.unknownForward r)
  | some (some _) => throw (.filledForward r)
  | some none =>
    modify fun b => { b with slots := b.slots.setIfInBounds r (some node) }
    pure r

/-- Adds a node as it is. A plain primitive type is looked up in the table first, and written there
after its slot. -/
def append (node : Node) : Building Ref := do
  match node.plain? with
  | none => push (some node)
  | some p =>
    match (← get).interned.get? p with
    | some r => pure r
    | none =>
      let r ← push (some node)
      modify fun b => { b with interned := b.interned.insert p r }
      pure r

/-- Adds a node over references that are there, in the given slot if one is given. -/
def add (node : Node) (slot : Option Ref) : Building Ref := do
  let b ← get
  match node.children.find? fun r => b.size ≤ r with
  | some r => throw (.unknownConstituent r)
  | none =>
    match slot with
    | some r => fill (b.target.normalize node) r
    | none => append (b.target.normalize node)

/-- Adds a primitive type. -/
def addPrimitive (kind : Kind) (attributes : Bag) (slot : Option Ref) : Building Ref :=
  match kind.primitive? with
  | none => throw (.notPrimitive kind)
  | some p => add ⟨.primitive p, attributes⟩ slot

/-- Names a type as a top-level type. -/
def addTop (name : String) (r : Ref) : Building Unit := do
  if r < (← get).size then modify fun b => { b with tops := b.tops.insert name r }
  else throw (.unknownTop r)

/-- Carries a command out in place. -/
def perform : Builder.Command → Building Builder.Reply
  | .reserve => .ref <$> push none
  | .add node slot => .ref <$> add node slot
  | .addPrimitive kind attributes slot => .ref <$> addPrimitive kind attributes slot
  | .addTop name r => do
    addTop name r
    pure .done
  | .isResolved r => do pure (.flag ((← get).isResolved r))
  | .node r => do pure (.node ((← get).node? r))

/-- Carries commands out in place, and goes on after a fault. -/
def performAll (commands : List Builder.Command) :
    StateM Builder (List (Except GraphFault Builder.Reply)) :=
  commands.mapM fun command => (perform command).run

end Building

end SchemaGraph
