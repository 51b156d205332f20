import SchemaGraph.Fault
/-!
# Graph.Basic -- valid graphs of types

A graph is a list of nodes and the names of its top-level types. In a valid graph every reference
designates a node, and the members of a union have different kinds. The proof of validity is part
of the graph, so whatever takes a graph may rely on it, and whatever makes one has to check:
`Graph.ofNodes?` names the first fault, the top-level names before the nodes and the nodes in
order.

* `firstFault?_eq_none_iff`: a graph is refused exactly when it is not valid.
-/

namespace SchemaGraph

set_option autoImplicit false

/-! ## Validity -/

/-- The kind of the node that a reference designates. -/
def kindAt? (nodes : Array Node) (r : Ref) : Option Kind := (nodes[r]?).map Node.kind

/-- Every reference designates a node, and the members of a union differ in kind. -/
structure Valid (nodes : Array Node) (tops : OrderedMap String Ref) : Prop where
  tops_lt : ∀ r ∈ tops.values, r < nodes.size
  children_lt : ∀ node ∈ nodes, ∀ r ∈ node.children, r < nodes.size
  kinds_differ : ∀ node ∈ nodes, ∀ members : OrderedSet Ref, node.type = .union members →
    ∀ a ∈ members, ∀ b ∈ members, kindAt? nodes a = kindAt? nodes b → a = b

/-- The first element that occurs a second time. -/
def firstRepeat? {α : Type} [DecidableEq α] (seen : List α) : List α → Option α
  | [] => none
  | a :: rest => if a ∈ seen then some a else firstRepeat? (a :: seen) rest

theorem firstRepeat?_eq_none_iff {α : Type} [DecidableEq α] {seen xs : List α} :
    firstRepeat? seen xs = none ↔ xs.Nodup ∧ ∀ a ∈ xs, a ∉ seen := by
  induction xs generalizing seen with
  | nil => simp [firstRepeat?]
  | cons a rest ih =>
    rw [firstRepeat?]
    by_cases found : a ∈ seen
    · simp [found]
    · rw [if_neg found, ih, List.nodup_cons]
      constructor
      · rintro ⟨distinct, fresh⟩
        refine ⟨⟨fun member => fresh a member List.mem_cons_self, distinct⟩, ?_⟩
        intro b member
        rcases List.mem_cons.1 member with rfl | later
        · exact found
        · exact fun old => fresh b later (List.mem_cons_of_mem _ old)
      · rintro ⟨⟨notLater, distinct⟩, fresh⟩
        refine ⟨distinct, fun b later => ?_⟩
        intro old
        rcases List.mem_cons.1 old with rfl | old
        · exact notLater later
        · exact fresh b (List.mem_cons_of_mem _ later) old

/-- The first kind that two members of a union share. -/
def repeatedKind? (nodes : Array Node) : Ty → Option Kind
  | .union members => firstRepeat? [] (members.toList.filterMap (kindAt? nodes))
  | _ => none

/-- The first fault of a node: a constituent that is not there, before a repeated kind. -/
def nodeFault? (nodes : Array Node) (index : Ref) (node : Node) : Option GraphFault :=
  match node.children.find? fun r => nodes.size ≤ r with
  | some r => some (.danglingConstituent index r)
  | none => (repeatedKind? nodes node.type).map (.repeatedKind index)

/-- The first name that is bound to no node. -/
def topFault? (nodes : Array Node) (tops : OrderedMap String Ref) : Option GraphFault :=
  (tops.entries.find? fun entry => nodes.size ≤ entry.2).map fun entry =>
    .danglingTop entry.1 entry.2

/-- The first fault of the nodes, in order. -/
def nodesFault? (nodes : Array Node) : Option GraphFault :=
  nodes.toList.zipIdx.findSome? fun entry => nodeFault? nodes entry.2 entry.1

/-- The first fault of a graph. -/
def firstFault? (nodes : Array Node) (tops : OrderedMap String Ref) : Option GraphFault :=
  match topFault? nodes tops with
  | some fault => some fault
  | none => nodesFault? nodes

theorem topFault?_eq_none_iff {nodes : Array Node} {tops : OrderedMap String Ref} :
    topFault? nodes tops = none ↔ ∀ r ∈ tops.values, r < nodes.size := by
  simp only [topFault?, Option.map_eq_none_iff, List.find?_eq_none, OrderedMap.values,
    List.mem_map, decide_eq_true_eq, Nat.not_le]
  constructor
  · rintro inside r ⟨entry, member, rfl⟩
    exact inside entry member
  · exact fun inside entry member => inside entry.2 ⟨entry, member, rfl⟩

theorem repeatedKind?_eq_none_iff {nodes : Array Node} {members : OrderedSet Ref}
    (inside : ∀ r ∈ members, r < nodes.size) :
    repeatedKind? nodes (.union members) = none ↔
      ∀ a ∈ members, ∀ b ∈ members, kindAt? nodes a = kindAt? nodes b → a = b := by
  rw [repeatedKind?, firstRepeat?_eq_none_iff]
  have known : ∀ r ∈ members.toList, ∃ kind, kindAt? nodes r = some kind := by
    intro r member
    have bound := inside r member
    exact ⟨nodes[r].kind, by simp [kindAt?, bound]⟩
  have distinct := members.nodup
  simp only [List.not_mem_nil, not_false_eq_true, implies_true, and_true, OrderedSet.mem_def]
  revert known distinct
  generalize members.toList = xs
  intro known distinct
  induction xs with
  | nil => simp
  | cons r rest ih =>
    obtain ⟨kind, kindOf⟩ := known r List.mem_cons_self
    rw [List.nodup_cons] at distinct
    have laterKnown : ∀ s ∈ rest, ∃ kind, kindAt? nodes s = some kind :=
      fun s member => known s (List.mem_cons_of_mem _ member)
    rw [List.filterMap_cons_some kindOf, List.nodup_cons]
    have later := ih laterKnown distinct.2
    constructor
    · rintro ⟨fresh, restDistinct⟩ a aIn b bIn same
      have differ := later.1 restDistinct
      rcases List.mem_cons.1 aIn with aHere | aLater
      · rcases List.mem_cons.1 bIn with bHere | bLater
        · exact aHere.trans bHere.symm
        · exact absurd (List.mem_filterMap.2 ⟨b, bLater, same ▸ aHere ▸ kindOf⟩) fresh
      · rcases List.mem_cons.1 bIn with bHere | bLater
        · exact absurd (List.mem_filterMap.2 ⟨a, aLater, same ▸ bHere ▸ kindOf⟩) fresh
        · exact differ a aLater b bLater same
    · intro differ
      refine ⟨?_, later.2 fun a aIn b bIn same =>
        differ a (List.mem_cons_of_mem _ aIn) b (List.mem_cons_of_mem _ bIn) same⟩
      intro member
      obtain ⟨s, sIn, kindS⟩ := List.mem_filterMap.1 member
      have same := differ r List.mem_cons_self s (List.mem_cons_of_mem _ sIn)
        (kindOf.trans kindS.symm)
      exact distinct.1 (same ▸ sIn)

theorem nodeFault?_eq_none_iff {nodes : Array Node} {index : Ref} {node : Node} :
    nodeFault? nodes index node = none ↔
      (∀ r ∈ node.children, r < nodes.size) ∧
      ∀ members : OrderedSet Ref, node.type = .union members →
        ∀ a ∈ members, ∀ b ∈ members, kindAt? nodes a = kindAt? nodes b → a = b := by
  rw [nodeFault?]
  cases found : node.children.find? fun r => nodes.size ≤ r with
  | some r =>
    have outside := List.find?_some found
    have member := List.mem_of_find?_eq_some found
    simp only [reduceCtorEq, false_iff, not_and]
    intro inside
    exact absurd (inside r member) (Nat.not_lt.2 (of_decide_eq_true outside))
  | none =>
    have inside : ∀ r ∈ node.children, r < nodes.size := by
      intro r member
      have := List.find?_eq_none.1 found r member
      simpa using this
    rw [Option.map_eq_none_iff, and_iff_right inside]
    cases type : node.type with
    | union members =>
      have membersIn : ∀ r ∈ members, r < nodes.size := by
        intro r member
        apply inside r
        rw [Node.children, type]
        exact member
      rw [repeatedKind?_eq_none_iff membersIn]
      constructor
      · rintro differ _ same
        cases same
        exact differ
      · exact fun differ => differ members rfl
    | _ => simp [repeatedKind?]

theorem firstFault?_eq_none_iff {nodes : Array Node} {tops : OrderedMap String Ref} :
    firstFault? nodes tops = none ↔ Valid nodes tops := by
  have nodeFaults : nodesFault? nodes = none ↔
      ∀ node ∈ nodes, (∀ r ∈ node.children, r < nodes.size) ∧
        ∀ members : OrderedSet Ref, node.type = .union members →
          ∀ a ∈ members, ∀ b ∈ members, kindAt? nodes a = kindAt? nodes b → a = b := by
    rw [nodesFault?, List.findSome?_eq_none_iff]
    constructor
    · intro clean node member
      obtain ⟨index, bound, at_⟩ := Array.mem_iff_getElem.1 member
      have entry : (node, index) ∈ nodes.toList.zipIdx := by
        rw [List.mem_zipIdx_iff_getElem?]
        simp [bound, at_]
      exact nodeFault?_eq_none_iff.1 (clean _ entry)
    · rintro sound ⟨node, index⟩ entry
      have member : node ∈ nodes := by
        have listed := List.mem_zipIdx_iff_getElem?.1 entry
        have := List.mem_of_getElem? listed
        exact Array.mem_toList_iff.1 this
      exact nodeFault?_eq_none_iff.2 (sound node member)
  have split : firstFault? nodes tops = none ↔
      topFault? nodes tops = none ∧ nodesFault? nodes = none := by
    rw [firstFault?]
    cases topFault? nodes tops <;> simp
  rw [split, topFault?_eq_none_iff, nodeFaults]
  constructor
  · rintro ⟨tops_lt, sound⟩
    exact ⟨tops_lt, fun node member => (sound node member).1, fun node member =>
      (sound node member).2⟩
  · rintro ⟨tops_lt, children_lt, kinds_differ⟩
    exact ⟨tops_lt, fun node member => ⟨children_lt node member, kinds_differ node member⟩⟩

/-! ## Graphs -/

/-- A valid graph of types. Graphs do not change: an operation makes a new one. -/
structure Graph where
  nodes : Array Node
  /-- The top-level types, by name. -/
  tops : OrderedMap String Ref
  valid : Valid nodes tops
deriving DecidableEq

namespace Graph

@[ext] theorem ext {g h : Graph} (nodes : g.nodes = h.nodes) (tops : g.tops = h.tops) : g = h := by
  cases g; cases h; cases nodes; cases tops; rfl

/-- The graph of the nodes and names, or its first fault. -/
def ofNodes? (nodes : Array Node) (tops : OrderedMap String Ref) : Except GraphFault Graph :=
  match check : firstFault? nodes tops with
  | some fault => .error fault
  | none => .ok ⟨nodes, tops, firstFault?_eq_none_iff.1 check⟩

/-- The graph without types. -/
def empty : Graph where
  nodes := #[]
  tops := .empty
  valid := firstFault?_eq_none_iff.1 rfl

instance : Inhabited Graph := ⟨empty⟩

variable (g : Graph)

def size : Nat := g.nodes.size

/-- The references to all nodes. -/
def refs : List Ref := List.range g.size

def node? (r : Ref) : Option Node := g.nodes[r]?

def type? (r : Ref) : Option Ty := (g.node? r).map Node.type

def kind? (r : Ref) : Option Kind := (g.node? r).map Node.kind

/-- The constituents of a type; none for a reference outside the graph. -/
def children (r : Ref) : List Ref :=
  match g.node? r with
  | some node => node.children
  | none => []

/-- The attributes of a type; none for a reference outside the graph. -/
def attributes (r : Ref) : Bag :=
  match g.node? r with
  | some node => node.attributes
  | none => .empty

/-- The record that a reference designates, if it designates one. -/
def record? (r : Ref) : Option Record := (g.type? r).bind Ty.record?

/-- The type of a name. -/
def top? (name : String) : Option Ref := g.tops.get? name

/-- Whether the reference designates a node. -/
def has (r : Ref) : Bool := decide (r < g.size)

theorem node?_eq_none_iff {r : Ref} : g.node? r = none ↔ g.size ≤ r := by
  simp [node?, size]

theorem children_lt {r child : Ref} (member : child ∈ g.children r) : child < g.size := by
  rw [children] at member
  split at member
  · rename_i node found
    have : node ∈ g.nodes := Array.mem_of_getElem? found
    exact g.valid.children_lt node this child member
  · cases member

end Graph

end SchemaGraph
