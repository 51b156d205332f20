import SchemaGraph.Proofs.Combine.Copies
import SchemaGraph.Proofs.Graph.Traversal
/-!
# Proofs.Graph.Renumbering -- a graph with its nodes under other numbers

References are the numbers of nodes. A graph is renumbered when its reachable nodes get other numbers,
each its own, and every reference to one of them and every top-level name is changed accordingly; nodes
that nothing reaches may come and go (`Graph.Renumbers`). Permuting all nodes is an instance
(`Graph.renumbers_of_permutation`), and so is changing nodes that nothing reaches
(`Graph.renumbers_of_unreachable`).

A walk through the renumbered graph enters the images of the types that a walk through the graph enters,
in the same order (`explore_map`), so the orders that merging goes by are the same. And a renumbering can be
undone (`Graph.Renumbers.exists_symm`), so types of one shape are types of one shape under their new
numbers (`Graph.Renumbers.sameShape_image`), although a comparison orders pairs of types by their numbers.
-/

namespace SchemaGraph

set_option autoImplicit false

/-! ## Images of lists and sets -/

section Images

variable {α β : Type} [DecidableEq β] {f : α → β}

/-- Elements with images of their own may be mapped before or after repetitions are dropped. -/
theorem firsts_map [DecidableEq α] {xs : List α} (injective : ∀ a ∈ xs, ∀ b ∈ xs, f a = f b → a = b) :
    firsts (xs.map f) = (firsts xs).map f := by
  induction xs with
  | nil => rfl
  | cons a rest ih =>
    have later := ih fun b inB c inC =>
      injective b (List.mem_cons_of_mem _ inB) c (List.mem_cons_of_mem _ inC)
    rw [List.map_cons, firsts_cons, later, firsts_cons, List.map_cons, List.filter_map]
    congr 2
    refine List.filter_congr fun b member => ?_
    have inB := List.mem_cons_of_mem a (mem_firsts.1 member)
    have same : f b = f a ↔ b = a := ⟨injective b inB a List.mem_cons_self, congrArg f⟩
    simp [same]

namespace OrderedSet

theorem toList_map {s : OrderedSet α} (injective : ∀ a ∈ s, ∀ b ∈ s, f a = f b → a = b) :
    (s.map f).toList = s.toList.map f :=
  firsts_of_nodup (List.Nodup.map_on (fun a inA b inB same => injective a inA b inB same) s.nodup)

theorem map_ofList [DecidableEq α] {xs : List α} (injective : ∀ a ∈ xs, ∀ b ∈ xs, f a = f b → a = b) :
    (ofList xs).map f = ofList (xs.map f) := by
  apply ext
  rw [toList_map, toList_ofList, toList_ofList, firsts_map injective]
  intro a inA b inB
  exact injective a (mem_ofList.1 inA) b (mem_ofList.1 inB)

theorem mem_map {s : OrderedSet α} {b : β} : b ∈ s.map f ↔ ∃ a ∈ s, f a = b := by
  rw [map, mem_ofList, List.mem_map]
  rfl

end OrderedSet

end Images

/-! ## Types over images -/

/-- The record over the images of the types of its properties. -/
def Record.relocate (image : Ref → Ref) (record : Record) : Record :=
  { record with properties := record.properties.mapValues (Property.relocate image) }

/-- The node over the images of its constituents. -/
def Node.relocate (image : Ref → Ref) (node : Node) : Node := ⟨node.type.mapRefs image, node.attributes⟩

namespace Record

variable (image : Ref → Ref) (record : Record)

theorem property?_relocate (name : String) :
    (record.relocate image).property? name = (record.property? name).map (Property.relocate image) :=
  OrderedMap.lookup_map _ name record.properties.entries

@[simp] theorem keys_relocate : (record.relocate image).properties.keys = record.properties.keys :=
  OrderedMap.keys_mapValues _ _

@[simp] theorem size_relocate : (record.relocate image).size = record.size := List.length_map _

theorem types_relocate : (record.relocate image).properties.values.map Property.type =
    (record.properties.values.map Property.type).map image := by
  simp [relocate, OrderedMap.values, OrderedMap.mapValues, Property.relocate]

variable {image record} in
theorem relocate_eq_self (fixed : ∀ r ∈ record.properties.values.map Property.type, image r = r) :
    record.relocate image = record := by
  have entries : ∀ entry ∈ record.properties.entries, (entry.1, entry.2.relocate image) = entry := by
    intro entry listed
    have same := fixed entry.2.type (List.mem_map_of_mem (List.mem_map_of_mem listed))
    rw [Property.relocate, same]
  refine congrArg (Record.mk · record.fixed) (OrderedMap.ext ?_)
  exact (List.map_congr_left entries).trans (List.map_id _)

end Record

namespace Ty

variable {image back : Ref → Ref} {type : Ty}

theorem children_mapRefs_of_nodup
    (distinct : ∀ members, type = .union members → (members.toList.map image).Nodup) :
    (type.mapRefs image).children = type.children.map image := by
  cases type with
  | union members => exact firsts_of_nodup (distinct members rfl)
  | record r => exact r.types_relocate image
  | _ => rfl

theorem children_mapRefs
    (injective : ∀ a ∈ type.children, ∀ b ∈ type.children, image a = image b → a = b) :
    (type.mapRefs image).children = type.children.map image := by
  refine children_mapRefs_of_nodup ?_
  rintro members rfl
  exact List.Nodup.map_on (fun a inA b inB => injective a inA b inB) members.nodup

/-- A type whose constituents are their own images is its own image. -/
theorem mapRefs_eq_self (fixed : ∀ r ∈ type.children, image r = r) : type.mapRefs image = type := by
  cases type with
  | array items => exact congrArg array (fixed items List.mem_cons_self)
  | map values => exact congrArg map (fixed values List.mem_cons_self)
  | union members =>
    have same : members.toList.map image = members.toList := (List.map_congr_left fixed).trans (List.map_id _)
    show Ty.union (.ofList (members.toList.map image)) = .union members
    rw [same, OrderedSet.ofList_toList]
  | record r => exact congrArg record (r.relocate_eq_self fixed)
  | _ => rfl

theorem mapRefs_mapRefs
    (injective : ∀ a ∈ type.children, ∀ b ∈ type.children, image a = image b → a = b) :
    (type.mapRefs image).mapRefs back = type.mapRefs (back ∘ image) := by
  cases type with
  | union members =>
    show Ty.union (.ofList ((members.map image).toList.map back)) = .union (.ofList (members.toList.map _))
    rw [OrderedSet.toList_map injective, List.map_map]
  | record r =>
    show Ty.record ((r.relocate image).relocate back) = .record (r.relocate (back ∘ image))
    simp [Record.relocate, OrderedMap.mapValues, Property.relocate]
  | _ => rfl

/-- A map of the constituents that can be undone is undone on the type. -/
theorem mapRefs_cancel (undone : ∀ r ∈ type.children, back (image r) = r) :
    (type.mapRefs image).mapRefs back = type := by
  rw [mapRefs_mapRefs]
  · exact mapRefs_eq_self undone
  intro a inA b inB same
  rw [← undone a inA, same, undone b inB]

end Ty

/-! ## Walks -/

/-- A walk does not leave types that its steps do not leave. -/
theorem explore_subset {next : Ref → List Ref} {all unvisited pending : List Ref}
    (closed : ∀ r ∈ all, next r ⊆ all) (listed : pending ⊆ all) : explore next unvisited pending ⊆ all := by
  fun_induction explore next unvisited pending with
  | case1 => exact List.nil_subset all
  | case2 unvisited s rest fresh ih =>
    obtain ⟨inS, inRest⟩ := List.cons_subset.1 listed
    exact List.cons_subset.2 ⟨inS, ih (List.append_subset.2 ⟨closed s inS, inRest⟩)⟩
  | case3 unvisited s rest known ih => exact ih (List.cons_subset.1 listed).2

/-- A walk from the images of types that it does not leave enters the images of what it enters. -/
theorem explore_map {next next' : Ref → List Ref} {image : Ref → Ref} {all : List Ref}
    (closed : ∀ r ∈ all, next r ⊆ all) (images : ∀ r ∈ all, next' (image r) = (next r).map image)
    (injective : ∀ a ∈ all, ∀ b ∈ all, image a = image b → a = b)
    {unvisited unvisited' pending : List Ref} (distinct : unvisited.Nodup) (distinct' : unvisited'.Nodup)
    (same : ∀ r ∈ all, image r ∈ unvisited' ↔ r ∈ unvisited) (listed : pending ⊆ all) :
    explore next' unvisited' (pending.map image) = (explore next unvisited pending).map image := by
  have inside : explore next unvisited pending ⊆ all := explore_subset closed listed
  have walk := explore_images closed images (fun a inA b inB equal => .inl (injective a inA b inB equal))
    distinct distinct' (fun r inR => (same r inR).1)
    (fun r inR fresh gone => absurd ((same r inR).2 fresh) gone) listed
  -- no two references share an image, so every image is a first occurrence
  have once : ((explore next unvisited pending).map image).Nodup :=
    List.Nodup.map_on (fun a inA b inB => injective a (inside inA) b (inside inB)) (nodup_explore distinct)
  rw [walk, firsts_of_nodup once, List.filter_eq_self]
  intro n entered
  obtain ⟨r, listed, rfl⟩ := List.mem_map.1 entered
  exact decide_eq_true ((same r (inside listed)).2 (mem_of_mem_explore listed))

namespace Graph

theorem children_subset (g : Graph) {r : Ref} {type : Ty} (reached : r ∈ g.reachable)
    (found : g.type? r = some type) : type.children ⊆ g.reachable := by
  rw [← g.children_of_type? found]
  exact fun _ => g.reachable_children reached

theorem members_subset (g : Graph) : ∀ r ∈ g.reachable, g.members r ⊆ g.reachable :=
  fun _ reached _ member => g.reachable_children reached (g.children_of_mem_members member)

theorem leaves_subset (g : Graph) {types : List Ref} (listed : types ⊆ g.reachable) :
    g.leaves types ⊆ g.reachable :=
  fun _ leaf => explore_subset g.members_subset listed (List.mem_of_mem_filter leaf)

theorem cases_subset (g : Graph) {r : Ref} (reached : r ∈ g.reachable) :
    (g.cases r).toList ⊆ g.reachable :=
  fun _ leaf => g.leaves_subset (by simpa using reached) (List.mem_of_mem_filter leaf)

/-! ## Renumbered graphs -/

/-- The second graph has the reachable nodes of the first under other numbers, each under its own, and
binds the same names to them in the same order. It may have any other nodes that nothing reaches. -/
structure Renumbers (g g' : Graph) (image : Ref → Ref) : Prop where
  node : ∀ {r node}, r ∈ g.reachable → g.node? r = some node →
    g'.node? (image r) = some (node.relocate image)
  tops : g'.tops.entries = g.tops.entries.map fun top => (top.1, image top.2)
  injective : ∀ a ∈ g.reachable, ∀ b ∈ g.reachable, image a = image b → a = b

/-- Permuting all nodes renumbers a graph. -/
theorem renumbers_of_permutation {g g' : Graph} (permutation : Equiv.Perm Ref)
    (nodes : ∀ r, g'.node? (permutation r) = (g.node? r).map (Node.relocate permutation))
    (tops : g'.tops.entries = g.tops.entries.map fun top => (top.1, permutation top.2)) :
    g.Renumbers g' permutation where
  node := by
    intro r node _ found
    rw [nodes, found]
    rfl
  tops := tops
  injective := fun _ _ _ _ same => permutation.injective same

/-- So does adding, removing or changing nodes that nothing reaches. -/
theorem renumbers_of_unreachable {g g' : Graph} (nodes : ∀ r ∈ g.reachable, g'.node? r = g.node? r)
    (tops : g'.tops = g.tops) : g.Renumbers g' id where
  node := by
    intro r node reached found
    rw [id, nodes r reached, found, Node.relocate]
    exact congrArg some (congrArg (Node.mk · node.attributes) (Ty.mapRefs_eq_self fun _ _ => rfl).symm)
  tops := by simp [tops]
  injective := fun _ _ _ _ same => same

namespace Renumbers

variable {g g' : Graph} {image : Ref → Ref} (renumbers : g.Renumbers g' image)

include renumbers

theorem toList_map {types : OrderedSet Ref} (inside : types.toList ⊆ g.reachable) :
    (types.map image).toList = types.toList.map image :=
  OrderedSet.toList_map fun a inA b inB => renumbers.injective a (inside inA) b (inside inB)

theorem node?_image {r : Ref} (reached : r ∈ g.reachable) :
    g'.node? (image r) = (g.node? r).map (Node.relocate image) := by
  obtain ⟨node, found⟩ := g.exists_node? (g.lt_of_mem_reachable reached)
  rw [renumbers.node reached found, found]
  rfl

theorem type?_image {r : Ref} (reached : r ∈ g.reachable) :
    g'.type? (image r) = (g.type? r).map (Ty.mapRefs image) := by
  rw [type?, renumbers.node?_image reached, type?, Option.map_map, Option.map_map]
  rfl

theorem kind?_image {r : Ref} (reached : r ∈ g.reachable) : g'.kind? (image r) = g.kind? r := by
  rw [kind?, renumbers.node?_image reached, kind?, Option.map_map]
  congr 1
  funext node
  exact Ty.kind_mapRefs image node.type

theorem attributes_image {r : Ref} (reached : r ∈ g.reachable) :
    g'.attributes (image r) = g.attributes r := by
  rw [attributes, renumbers.node?_image reached, attributes]
  cases g.node? r <;> rfl

theorem record?_image {r : Ref} (reached : r ∈ g.reachable) :
    g'.record? (image r) = (g.record? r).map (Record.relocate image) := by
  rw [record?, renumbers.type?_image reached, record?]
  cases g.type? r with
  | none => rfl
  | some type => cases type <;> rfl

theorem children_image {r : Ref} (reached : r ∈ g.reachable) :
    g'.children (image r) = (g.children r).map image := by
  have inside : ∀ child ∈ g.children r, child ∈ g.reachable := fun _ => g.reachable_children reached
  rw [children, renumbers.node?_image reached]
  rw [children] at inside ⊢
  cases found : g.node? r with
  | none => rfl
  | some node =>
    rw [found] at inside
    refine Ty.children_mapRefs fun a inA b inB => ?_
    exact renumbers.injective a (inside a inA) b (inside b inB)

theorem members_image {r : Ref} (reached : r ∈ g.reachable) :
    g'.members (image r) = (g.members r).map image := by
  have inside : ∀ m ∈ g.members r, m ∈ g.reachable := fun m member =>
    g.reachable_children reached (g.children_of_mem_members member)
  rw [members, renumbers.type?_image reached]
  rw [members] at inside ⊢
  cases found : g.type? r with
  | none => rfl
  | some type =>
    rw [found] at inside
    cases type with
    | union olds =>
      refine OrderedSet.toList_map fun a inA b inB => ?_
      exact renumbers.injective a (inside a inA) b (inside b inB)
    | _ => rfl

theorem mem_refs_image {r : Ref} (reached : r ∈ g.reachable) : image r ∈ g'.refs ↔ r ∈ g.refs := by
  have here := g.lt_of_mem_reachable reached
  have there : image r < g'.size := by
    obtain ⟨type, found⟩ := g.exists_type? here
    have moved : g'.type? (image r) = some (type.mapRefs image) := by
      rw [renumbers.type?_image reached, found, Option.map_some]
    exact g'.lt_of_type? moved
  rw [g.mem_refs, g'.mem_refs]
  exact iff_of_true there here

/-! ## Orders -/

theorem reachable_eq : g'.reachable = g.reachable.map image := by
  have tops : g'.tops.values = g.tops.values.map image := by
    simp [OrderedMap.values, renumbers.tops]
  rw [reachable, tops]
  refine explore_map (fun r reached _ => g.reachable_children reached)
    (fun _ => renumbers.children_image) renumbers.injective List.nodup_range List.nodup_range
    (fun _ => renumbers.mem_refs_image) fun _ => g.reachable_of_top

theorem leaves_image {types : List Ref} (listed : types ⊆ g.reachable) :
    g'.leaves (types.map image) = (g.leaves types).map image := by
  have walk : explore g'.members g'.refs (types.map image) = (explore g.members g.refs types).map image :=
    explore_map g.members_subset (fun _ => renumbers.members_image) renumbers.injective List.nodup_range
      List.nodup_range (fun _ => renumbers.mem_refs_image) listed
  rw [leaves, walk, List.filter_map, leaves]
  congr 1
  refine List.filter_congr fun r entered => ?_
  have reached := explore_subset g.members_subset listed entered
  simp [renumbers.kind?_image reached]

theorem cases_image {r : Ref} (reached : r ∈ g.reachable) : g'.cases (image r) = (g.cases r).map image := by
  have listed : [r] ⊆ g.reachable := by simpa using reached
  have walk := renumbers.leaves_image listed
  apply OrderedSet.ext
  rw [renumbers.toList_map (g.cases_subset reached), cases, cases]
  simp only
  rw [← List.map_singleton, walk, List.filter_map]
  congr 1
  refine List.filter_congr fun leaf member => ?_
  simp [renumbers.kind?_image (g.leaves_subset listed member)]

theorem mem_reachable_image {r : Ref} (reached : r ∈ g.reachable) : image r ∈ g'.reachable := by
  rw [renumbers.reachable_eq]
  exact List.mem_map_of_mem reached

/-- A renumbered graph may be renumbered again. -/
theorem trans {g'' : Graph} {image' : Ref → Ref} (later : g'.Renumbers g'' image') :
    g.Renumbers g'' (image' ∘ image) where
  node := by
    intro r node reached found
    have inside := g.children_subset reached (g.type?_of_node? found)
    have moved := later.node (renumbers.mem_reachable_image reached) (renumbers.node reached found)
    rw [Node.relocate, Node.relocate, Ty.mapRefs_mapRefs] at moved
    · exact moved
    · exact fun a inA b inB => renumbers.injective a (inside inA) b (inside inB)
  tops := by rw [later.tops, renumbers.tops, List.map_map]; rfl
  injective := by
    intro a inA b inB same
    refine renumbers.injective a inA b inB ?_
    exact later.injective _ (renumbers.mem_reachable_image inA) _ (renumbers.mem_reachable_image inB) same

/-! ## Shapes -/

theorem copiedTo : g.CopiedTo .standard g' image where
  type := by
    intro r type reached found
    rw [renumbers.type?_image reached, found]
    rfl
  tops := renumbers.tops
  shared := fun reachedA reachedB same => .inl (renumbers.injective _ reachedA _ reachedB same)

theorem relocation : g.Relocation g' image := renumbers.copiedTo.relocation

/-- A renumbering can be undone. -/
theorem exists_symm : ∃ back, g'.Renumbers g back ∧ ∀ r ∈ g.reachable, back (image r) = r := by
  have injective : Set.InjOn image {r | r ∈ g.reachable} := fun a inA b inB => renumbers.injective a inA b inB
  have undone : ∀ r ∈ g.reachable, Function.invFunOn image {r | r ∈ g.reachable} (image r) = r :=
    injective.leftInvOn_invFunOn
  refine ⟨_, ⟨?_, ?_, ?_⟩, undone⟩
  · intro n node reached found
    rw [renumbers.reachable_eq] at reached
    obtain ⟨r, reachedR, rfl⟩ := List.mem_map.1 reached
    rw [renumbers.node?_image reachedR] at found
    obtain ⟨old, here, rfl⟩ := Option.map_eq_some_iff.1 found
    have children := g.children_subset reachedR (g.type?_of_node? here)
    rw [undone r reachedR, here, Node.relocate, Node.relocate, Ty.mapRefs_cancel]
    exact fun child member => undone child (children member)
  · rw [renumbers.tops, List.map_map]
    refine ((List.map_congr_left fun top listed => ?_).trans (List.map_id _)).symm
    have reached := g.reachable_of_top (List.mem_map_of_mem listed)
    simp [undone top.2 reached]
  · intro a inA b inB same
    rw [renumbers.reachable_eq] at inA inB
    obtain ⟨r, reachedR, rfl⟩ := List.mem_map.1 inA
    obtain ⟨s, reachedS, rfl⟩ := List.mem_map.1 inB
    rw [undone r reachedR, undone s reachedS] at same
    rw [same]

theorem sameShape_image {a b : Ref} (reachedA : a ∈ g.reachable) (reachedB : b ∈ g.reachable) :
    g'.sameShape false (image a) (image b) = g.sameShape false a b := by
  obtain ⟨back, renumbersBack, undone⟩ := renumbers.exists_symm
  rw [Bool.eq_iff_iff]
  constructor
  · exact renumbers.relocation.sameShape_of_image reachedA reachedB
  · intro same
    refine renumbersBack.relocation.sameShape_of_image (renumbers.mem_reachable_image reachedA)
      (renumbers.mem_reachable_image reachedB) ?_
    rw [undone a reachedA, undone b reachedB]
    exact same

end Renumbers

end Graph

end SchemaGraph
