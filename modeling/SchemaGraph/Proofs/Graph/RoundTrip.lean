import SchemaGraph.Graph.Printer
import SchemaGraph.Graph.Reader
import SchemaGraph.Proofs.Draft.Replacement
import SchemaGraph.Proofs.Json.RoundTrip
/-!
# Proofs.Graph.RoundTrip -- the text of a graph reads back

The members of a type are read as values first, and then looked through. So its text is that of the
values that it is described by (`Ty.fields`), and it is enough that the description gives the type back
(`Reading.asType_fields`). The attributes are read where they stand, apart from the others.

* `Reading.reads_node`: a node with its type and attributes.
* `Graph.parse_text`: the text of a graph reads back as that graph, and whatever is read is valid.
-/

namespace SchemaGraph

set_option autoImplicit false

open Json

/-! ## Types as values -/

/-- The value that a property is written as. -/
def Property.value (p : Property) : Value := .object [("type", .int p.type), ("optional", .bool p.optional)]

/-- The members that a type is written as, behind its kind. -/
def Ty.fields : Ty → List (String × Value)
  | .primitive _ => []
  | .array items => [("items", .int items)]
  | .map values => [("values", .int values)]
  | .enum cases => [("cases", .array (cases.toList.map .string))]
  | .union members => [("members", .array (members.toList.map fun m : Ref => .int m))]
  | .record r =>
    [("properties", .object (r.properties.entries.map fun entry => (entry.1, entry.2.value))),
     ("fixed", .bool r.fixed)]

/-- The members that are written for a node, apart from its attributes. -/
def Node.fields (node : Node) : List (String × Value) := ("kind", .string node.kind.name) :: node.type.fields

theorem Ty.fieldChars_eq (type : Ty) :
    type.fieldChars = membersChars (type.fields.map fun field => (field.1, valueChars field.2)) := by
  cases type with
  | primitive p => rfl
  | array items => rfl
  | map values => rfl
  | enum cases =>
    simp only [fieldChars, fields, membersChars, List.map_cons, List.map_nil, valueChars,
      itemsChars_eq_map, List.map_map]
    rfl
  | union members =>
    simp only [fieldChars, fields, membersChars, List.map_cons, List.map_nil, valueChars,
      itemsChars_eq_map, List.map_map]
    rfl
  | record r =>
    simp only [fieldChars, fields, membersChars, List.map_cons, List.map_nil, valueChars,
      fieldsChars_eq_membersChars, List.map_map]
    rfl

/-- What is written for a node is no attribute. -/
theorem Node.ne_attributes_of_mem_fields {node : Node} {field : String × Value}
    (listed : field ∈ node.fields) : field.1 ≠ "attributes" := by
  have all : ∀ name ∈ node.fields.map Prod.fst, name ≠ "attributes" := by
    rw [fields, List.map_cons]
    cases node.type <;> simp [Ty.fields]
  exact all _ (List.mem_map_of_mem listed)

/-- The members of a node are exact, for two brackets are enough and references fit. -/
theorem Node.exact_of_mem_fields {node : Node} (small : ∀ r ∈ node.children, r < 2 ^ 64) {depth : Nat}
    {field : String × Value} (listed : field ∈ node.fields) : field.2.Exact (depth + 2) := by
  have ref : ∀ {r : Nat} {depth : Nat}, r ∈ node.children → (Value.int r).Exact depth := by
    intro r depth member
    have bound : r < 2 ^ 64 := small r member
    exact .int (by omega) (by omega)
  obtain ⟨type, attributes⟩ := node
  rcases List.mem_cons.1 listed with rfl | listed
  · exact .string _
  · cases type with
    | primitive p => cases listed
    | array items =>
      cases List.mem_singleton.1 listed
      exact ref List.mem_cons_self
    | map values =>
      cases List.mem_singleton.1 listed
      exact ref List.mem_cons_self
    | enum cases =>
      cases List.mem_singleton.1 listed
      refine .array fun item member => ?_
      obtain ⟨c, _, rfl⟩ := List.mem_map.1 member
      exact .string c
    | union members =>
      cases List.mem_singleton.1 listed
      refine .array fun item member => ?_
      obtain ⟨r, inside, rfl⟩ := List.mem_map.1 member
      exact ref inside
    | record r =>
      simp only [Ty.fields, List.mem_cons, List.not_mem_nil, or_false] at listed
      rcases listed with rfl | rfl
      · have keys : (r.properties.entries.map fun entry => (entry.1, entry.2.value)).map Prod.fst =
            r.properties.entries.map Prod.fst := List.map_map
        refine .object (keys ▸ r.properties.nodup) fun entry member => ?_
        obtain ⟨property, inside, rfl⟩ := List.mem_map.1 member
        have child : property.2.type ∈ (Ty.record r).children :=
          List.mem_map_of_mem (List.mem_map_of_mem inside)
        refine .object (by simp) fun part one => ?_
        simp only [List.mem_cons, List.not_mem_nil, or_false] at one
        rcases one with rfl | rfl
        · exact ref child
        · exact .bool _
      · exact .bool _

/-! ## The description gives the type back -/

namespace Reading

theorem mapM_asString (cases : List String) : (cases.map Value.string).mapM asString = .ok cases := by
  induction cases with
  | nil => rfl
  | cons c more ih =>
    rw [List.map_cons, List.mapM_cons, ih]
    rfl

theorem mapM_asRef (members : List Ref) :
    (members.map fun m : Ref => Value.int m).mapM asRef = .ok members := by
  induction members with
  | nil => rfl
  | cons m more ih =>
    rw [List.map_cons, List.mapM_cons, ih]
    rfl

theorem mapM_asNamedProperty (entries : List (String × Property)) :
    (entries.map fun entry => (entry.1, entry.2.value)).mapM asNamedProperty = .ok entries := by
  induction entries with
  | nil => rfl
  | cons entry more ih =>
    rw [List.map_cons, List.mapM_cons, ih]
    rfl

theorem asProperties_value (properties : OrderedMap String Property) :
    asProperties (.object (properties.entries.map fun entry => (entry.1, entry.2.value))) =
      .ok properties := by
  show ((properties.entries.map fun entry : String × Property => (entry.1, entry.2.value)).mapM
    asNamedProperty >>= fun entries => Except.ok (OrderedMap.ofList entries)) = _
  rw [mapM_asNamedProperty]
  exact congrArg Except.ok (OrderedMap.ext (OrderedMap.entries_ofList properties.nodup))

/-- The members of a node describe its type. -/
theorem asType_fields (node : Node) : asType node.fields = .ok node.type := by
  obtain ⟨type, attributes⟩ := node
  cases type with
  | primitive p => cases p <;> rfl
  | array items => rfl
  | map values => rfl
  | enum cases =>
    show (do
      let cases ← (cases.toList.map Value.string).mapM asString
      .ok (Ty.enum (.ofList cases))) = _
    rw [mapM_asString]
    exact congrArg (fun set => Except.ok (Ty.enum set)) (OrderedSet.ofList_toList cases)
  | union members =>
    show (do
      let members ← (members.toList.map fun m : Ref => Value.int m).mapM asRef
      .ok (Ty.union (.ofList members))) = _
    rw [mapM_asRef]
    exact congrArg (fun set => Except.ok (Ty.union set)) (OrderedSet.ofList_toList members)
  | record r =>
    have record : asRecord (Node.fields ⟨.record r, attributes⟩) = .ok r := by
      show (asProperties (.object _) >>= fun properties => Except.ok (⟨properties, r.fixed⟩ : Record)) = _
      rw [asProperties_value]
      rfl
    show (asRecord _ >>= fun record => Except.ok (Ty.record record)) = _
    rw [record]
    rfl

/-! ## The stream -/

theorem reads_ref {r : Nat} (small : r < 2 ^ 64) : Reads readRef (natChars r) r := by
  intro rest ends
  obtain ⟨c, tail, chars, digit⟩ := exists_natChars r
  have number : readNumber (natChars r ++ rest) = .ok (.int r, rest) :=
    readNumber_intChars (n := r) (by omega) (by omega) ends
  have visible := (opens_natChars r).skipBlank_append rest
  rw [readRef, visible]
  rw [chars, List.cons_append] at number ⊢
  simp only [digit, or_true, if_true, number]
  rfl

theorem reads_object {σ : Type} {member : σ → String → Reader σ} {s t : σ}
    {members : List (String × List Char)} (steps : Steps member s members t) :
    Reads (readObject member s) (objectChars (membersChars members)) t := by
  intro rest _
  rw [objectChars, List.cons_append, List.append_assoc, readObject, skipBlank_cons (by decide)]
  exact readMembers_of_steps steps rest

theorem reads_array {α : Type} {item : Reader α} {texts : List (List Char)} {as : List α}
    (reads : List.Forall₂ (Reads item) texts as) (opens : ∀ text ∈ texts, Opens text) :
    Reads (readArray item) (arrayChars texts) as := by
  intro rest _
  rw [arrayChars, List.cons_append, List.append_assoc, readArray, skipBlank_cons (by decide)]
  exact readItems_of_reads reads opens rest

end Reading

/-! ## Attributes -/

/-- A key behind all others goes to the end. -/
theorem insertKey_of_forall_lt {β : Type} {k : String} {v : β} {xs : List (String × β)}
    (last : ∀ x ∈ xs, x.1 < k) : insertKey k v xs = xs ++ [(k, v)] := by
  induction xs with
  | nil => rfl
  | cons x more ih =>
    have less := last x List.mem_cons_self
    have notLess : ¬ k < x.1 := fun other => String.lt_irrefl k (String.lt_trans other less)
    have notSame : k ≠ x.1 := fun same => String.lt_irrefl k (same.symm ▸ less)
    rw [insertKey, if_neg notLess, if_neg notSame, ih fun y later => last y (List.mem_cons_of_mem _ later)]
    rfl

/-- A bag is made again by writing its attributes in order. -/
theorem Bag.foldl_insert {bag before : Bag} {rest : List (String × Value)}
    (split : bag.entries = before.entries ++ rest) :
    rest.foldl (fun bag entry => bag.insert entry.1 entry.2) before = bag := by
  induction rest generalizing before with
  | nil =>
    obtain ⟨entries, increasing⟩ := before
    obtain ⟨same, _⟩ := bag
    rw [List.append_nil] at split
    cases split
    rfl
  | cons entry more ih =>
    refine ih ?_
    have ordered := split ▸ bag.increasing
    have last : ∀ x ∈ before.entries, x.1 < entry.1 := fun x listed =>
      (List.pairwise_append.1 ordered).2.2 x listed entry List.mem_cons_self
    have inserted : (before.insert entry.1 entry.2).entries = before.entries ++ [entry] :=
      insertKey_of_forall_lt last
    rw [inserted, split, List.append_assoc]
    rfl

namespace Reading

variable {node : Node}

theorem reads_bag {bag : Bag}
    (exact : ∀ entry ∈ bag.entries, entry.2.Exact (depthLimit - 1 - attributeDepth)) :
    Reads readBag bag.chars bag := by
  have steps : Steps (readMember (readValue .replace (depthLimit - 1 - attributeDepth))
      fun bag kind value => Bag.insert bag kind value) .empty
      (bag.entries.map fun entry => (entry.1, valueChars entry.2)) _ :=
    steps_readMember fun entry listed => reads_value .replace (exact entry listed)
  rw [Bag.foldl_insert rfl] at steps
  have reads := reads_object steps
  rw [membersChars, List.map_map] at reads
  exact reads

/-- Members that are no attributes are kept as values. -/
theorem steps_fields {parts : Option Bag} {before fields : List (String × Value)}
    (others : ∀ field ∈ fields, field.1 ≠ "attributes")
    (exact : ∀ field ∈ fields, field.2.Exact (depthLimit - 1 - nodeDepth)) :
    Steps readNodeMember ⟨parts, before⟩ (fields.map fun field => (field.1, valueChars field.2))
      ⟨parts, before ++ fields⟩ := by
  induction fields generalizing before with
  | nil =>
    rw [List.append_nil]
    exact .nil
  | cons field more ih =>
    have split : before ++ field :: more = (before ++ [field]) ++ more := by simp
    rw [split]
    refine .cons (t := ⟨parts, before ++ [field]⟩) ?_ (ih (fun other later => others other
      (List.mem_cons_of_mem _ later)) fun other later => exact other (List.mem_cons_of_mem _ later))
    intro rest ends
    have value := reads_value .keep (exact field List.mem_cons_self) rest ends
    rw [readNodeMember, if_neg (others field List.mem_cons_self), List.cons_append,
      takeMark_cons (by decide)]
    show (readValue .keep _ (valueChars field.2 ++ rest) >>= _) = _
    rw [value]
    rfl

/-- The members of a node that are written. -/
theorem node_chars_eq (node : Node) : node.chars = objectChars (membersChars
    ((node.fields.map fun field => (field.1, valueChars field.2)) ++
      if node.attributes.isEmpty then [] else [("attributes", node.attributes.chars)])) := by
  rw [Node.chars, Ty.fieldChars_eq, membersChars, membersChars, List.map_append, Node.fields]
  split <;> rfl

/-- A node reads back, if its references fit and its attributes are exact. -/
theorem reads_node (small : ∀ r ∈ node.children, r < 2 ^ 64)
    (exact : ∀ entry ∈ node.attributes.entries, entry.2.Exact (depthLimit - 1 - attributeDepth)) :
    Reads readNode node.chars node := by
  have fields : Steps readNodeMember ⟨none, []⟩ _ ⟨none, node.fields⟩ :=
    steps_fields (fun _ => Node.ne_attributes_of_mem_fields) fun _ => Node.exact_of_mem_fields small
  have finish : ∀ {members : List (String × List Char)} {found : Option Bag},
      Steps readNodeMember ⟨none, []⟩ members ⟨found, node.fields⟩ → found.getD .empty = node.attributes →
      Reads readNode (objectChars (membersChars members)) node := by
    intro members found steps same rest ends
    have parts := reads_object steps rest ends
    rw [readNode, parts]
    show (asType node.fields >>= _) = _
    rw [asType_fields]
    show Except.ok ((⟨node.type, found.getD .empty⟩ : Node), rest) = _
    rw [same]
  rw [node_chars_eq]
  split
  · rename_i none
    rw [List.append_nil]
    refine finish fields ?_
    have entries : node.attributes.entries = [] := List.isEmpty_iff.1 none
    exact @Bag.foldl_insert node.attributes .empty [] entries
  · have attributes : Reads (readNodeMember ⟨none, node.fields⟩ "attributes") (':' :: node.attributes.chars)
        ⟨some node.attributes, node.fields⟩ := ?_
    · exact finish (fields.append (.single attributes)) rfl
    intro rest ends
    have bag := reads_bag exact rest ends
    rw [readNodeMember, if_pos rfl, List.cons_append, takeMark_cons (by decide)]
    show (readBag (node.attributes.chars ++ rest) >>= _) = _
    rw [bag]
    rfl

theorem opens_node_chars (node : Node) : Opens node.chars := ⟨_, _, rfl, by decide, by decide, by decide⟩

/-! ## Graphs -/

theorem reads_tops {tops : OrderedMap String Ref} (small : ∀ r ∈ tops.values, r < 2 ^ 64) :
    Reads readTops (objectChars (tops.entries.map fun entry => memberChars entry.1 (natChars entry.2)))
      tops := by
  have steps : Steps (readMember readRef fun tops name r => OrderedMap.insert tops name r) .empty
      (tops.entries.map fun entry => (entry.1, natChars entry.2)) (OrderedMap.ofList tops.entries) :=
    steps_readMember fun entry listed => reads_ref (small entry.2 (List.mem_map_of_mem listed))
  rw [OrderedMap.ext (OrderedMap.entries_ofList tops.nodup)] at steps
  have reads := reads_object steps
  rw [membersChars, List.map_map] at reads
  exact reads

theorem reads_topsMember {chars : List Char} {tops : OrderedMap String Ref}
    (reads : Reads readTops chars tops) :
    Reads (readGraphMember ⟨none, none⟩ "top-levels") (':' :: chars) ⟨some tops, none⟩ := by
  intro rest ends
  rw [readGraphMember, if_pos rfl, List.cons_append, takeMark_cons (by decide)]
  show (readTops (chars ++ rest) >>= _) = _
  rw [reads rest ends]
  rfl

theorem reads_nodesMember {chars : List Char} {tops : Option (OrderedMap String Ref)} {nodes : List Node}
    (reads : Reads (readArray readNode) chars nodes) :
    Reads (readGraphMember ⟨tops, none⟩ "types") (':' :: chars) ⟨tops, some nodes⟩ := by
  intro rest ends
  rw [readGraphMember, if_neg (by decide), if_pos rfl, List.cons_append, takeMark_cons (by decide)]
  show (readArray readNode (chars ++ rest) >>= _) = _
  rw [reads rest ends]
  rfl

/-- The two parts of a graph read back. -/
theorem readGraphParts_chars {g : Graph} (small : g.size ≤ 2 ^ 64)
    (exact : ∀ node ∈ g.nodes, ∀ entry ∈ node.attributes.entries,
      entry.2.Exact (depthLimit - 1 - attributeDepth)) :
    readGraphParts g.chars = .ok (⟨some g.tops, some g.nodes.toList⟩, []) := by
  have fits : ∀ {r : Ref}, r < g.nodes.size → r < 2 ^ 64 := fun inside => Nat.lt_of_lt_of_le inside small
  have tops := reads_tops fun r listed => fits (g.valid.tops_lt r listed)
  have nodes : Reads (readArray readNode) (arrayChars (g.nodes.toList.map Node.chars)) g.nodes.toList := by
    refine reads_array (List.forall₂_map_left_iff.2 (List.forall₂_same.2 fun node listed => ?_)) ?_
    · have member := Array.mem_toList_iff.1 listed
      exact reads_node (fun r child => fits (g.valid.children_lt node member r child)) (exact node member)
    · intro text listed
      obtain ⟨node, _, rfl⟩ := List.mem_map.1 listed
      exact opens_node_chars node
  have all := readMembers_of_steps (.cons (reads_topsMember tops) (.single (reads_nodesMember nodes))) []
  rw [readGraphParts, Graph.chars, objectChars, skipBlank_cons (by decide)]
  exact all

end Reading

namespace Graph

/-- Work that may fail succeeds step by step. -/
theorem exists_of_bind_eq_ok {ε α β : Type} {first : Except ε α} {later : α → Except ε β} {b : β}
    (done : (first >>= later) = .ok b) : ∃ a, first = .ok a ∧ later a = .ok b := by
  cases first with
  | error fault => cases done
  | ok a => exact ⟨a, rfl, done⟩

theorem eq_ok_of_mapError {ε ε' α : Type} {f : ε → ε'} {work : Except ε α} {a : α}
    (done : work.mapError f = .ok a) : work = .ok a := by
  cases work with
  | error fault => cases done
  | ok b =>
    cases done
    rfl

/-- A graph that is read is the one that its text describes. -/
theorem exists_parts_of_parse {text : String} {h : Graph} (accepted : Graph.parse text = .ok h) :
    ∃ parts rest, Reading.readGraphParts text.toList = .ok (parts, rest) ∧
      h.nodes.toList = parts.nodes.getD [] ∧ h.tops = parts.tops.getD .empty := by
  obtain ⟨⟨parts, rest⟩, found, accepted⟩ := exists_of_bind_eq_ok accepted
  obtain ⟨graph, made, accepted⟩ := exists_of_bind_eq_ok accepted
  obtain ⟨_, _, same⟩ := exists_of_bind_eq_ok accepted
  cases same
  refine ⟨parts, rest, eq_ok_of_mapError found, ?_⟩
  replace made := eq_ok_of_mapError made
  unfold ofNodes? at made
  split at made
  · cases made
  · cases made
    exact ⟨rfl, rfl⟩

/-- The text of a graph reads back as that graph, with all its orders, flags and attributes: whatever its
names, cases and keys are, as long as references fit 64 bits and the attributes are exact, with the
brackets of the graph around them. And whatever text is read, the graph is what it describes, its
references designate nodes, and the members of a union differ in kind. -/
theorem parse_text {g : Graph} (small : g.size ≤ 2 ^ 64)
    (exact : ∀ node ∈ g.nodes, ∀ entry ∈ node.attributes.entries,
      entry.2.Exact (depthLimit - 1 - Reading.attributeDepth)) :
    Graph.parse g.text = .ok g ∧
      ∀ text h, Graph.parse text = .ok h →
        (∃ parts rest, Reading.readGraphParts text.toList = .ok (parts, rest) ∧
          h.nodes.toList = parts.nodes.getD [] ∧ h.tops = parts.tops.getD .empty) ∧
        (∀ r ∈ h.tops.values, r < h.size) ∧
        ∀ owner node, h.node? owner = some node → (∀ child ∈ node.children, child < h.size) ∧
          ∀ members, node.type = .union members →
            ∀ a ∈ members, ∀ b ∈ members, h.kind? a = h.kind? b → a = b := by
  constructor
  · rw [Graph.parse, text, String.toList_ofList, Reading.readGraphParts_chars small exact]
    show ((ofNodes? g.nodes.toList.toArray g.tops).mapError ReadFault.graph >>= _) = _
    rw [Array.toArray_toList, ofNodes?_eq_ok g.valid]
    rfl
  · intro text h accepted
    refine ⟨exists_parts_of_parse accepted, h.valid.tops_lt, fun owner node found => ?_⟩
    have member : node ∈ h.nodes := Array.mem_of_getElem? found
    exact ⟨h.valid.children_lt node member, h.valid.kinds_differ node member⟩

/-- A list of strings, under a name with a quote in it; the type of the strings has a name of two lines. -/
def quotedList : Graph :=
  ⟨#[⟨.primitive .string, .ofNames ["two\nlines"]⟩, ⟨.array 0, .empty⟩], .ofList [("a \" b", 1)],
    firstFault?_eq_none_iff.1 (by decide +kernel)⟩

/-- It reads back, so its name designates a type. -/
theorem parse_quotedList : quotedList.size ≤ 2 ^ 64 ∧
    (∀ node ∈ quotedList.nodes, ∀ entry ∈ node.attributes.entries,
      entry.2.Exact (depthLimit - 1 - Reading.attributeDepth)) ∧
    Graph.parse quotedList.text = .ok quotedList ∧
    ∀ r ∈ quotedList.tops.values, r < quotedList.size := by
  have small : quotedList.size ≤ 2 ^ 64 := by decide
  have exact : ∀ node ∈ quotedList.nodes, ∀ entry ∈ node.attributes.entries,
      entry.2.Exact (depthLimit - 1 - Reading.attributeDepth) := by
    intro node member entry listed
    simp only [quotedList, List.mem_toArray, List.mem_cons, List.not_mem_nil, or_false] at member
    rcases member with rfl | rfl
    · cases List.mem_singleton.1 listed
      refine .array fun item inside => ?_
      cases List.mem_singleton.1 inside
      exact .string _
    · cases listed
  obtain ⟨back, accepts⟩ := parse_text small exact
  exact ⟨small, exact, back, (accepts quotedList.text quotedList back).2.1⟩

end Graph

end SchemaGraph
