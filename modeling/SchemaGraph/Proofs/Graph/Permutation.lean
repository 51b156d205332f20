import Mathlib
import SchemaGraph.Proofs.Graph.Renumbering
/-!
# Proofs.Graph.Permutation -- a graph with all of its nodes under other numbers

A permuted graph has the nodes of a graph, reachable or not, under other numbers
(`Graph.Permutes`). Every permutation of the numbers of a graph makes one (`Graph.permuted`), so the
nodes of any sort can be given the first numbers (`Graph.exists_permuted_first`): what a comparison
decides by the order of numbers can be turned around.
-/

namespace SchemaGraph

set_option autoImplicit false

/-- A permutation of the first numbers that puts those of one sort before the others. -/
theorem exists_permutation_first (n : Nat) (first : Ref → Prop) :
    ∃ permutation : Equiv.Perm Ref, (∀ r, permutation r < n ↔ r < n) ∧
      ∀ a b, a < n → b < n → first a → ¬ first b → permutation a < permutation b := by
  classical
  let rank : Fin n → Nat := fun i => if first i then 0 else 1
  -- sorting by rank says which number stands at a place, so its inverse says where a number goes
  let place : Equiv.Perm (Fin n) := (Tuple.sort rank)⁻¹
  have placed : ∀ (a : Ref) (inside : a < n),
      place.extendDomain Fin.equivSubtype a = place ⟨a, inside⟩ := by
    intro a inside
    exact place.extendDomain_apply_image Fin.equivSubtype ⟨a, inside⟩
  refine ⟨place.extendDomain Fin.equivSubtype, ?_, ?_⟩
  · intro r
    by_cases inside : r < n
    · rw [placed r inside]
      simp [inside]
    · have fixed := place.extendDomain_apply_not_subtype Fin.equivSubtype inside
      rw [fixed]
  · intro a b inA inB firstA notFirstB
    rw [placed a inA, placed b inB]
    by_contra behind
    have order := Tuple.monotone_sort rank (Fin.not_lt.1 behind)
    simp [place, rank, firstA, notFirstB] at order

/-- A node that was moved can be moved back. -/
theorem Node.relocate_symm (permutation : Equiv.Perm Ref) (node : Node) :
    (node.relocate permutation).relocate permutation.symm = node := by
  have type : (node.type.mapRefs permutation).mapRefs permutation.symm = node.type :=
    Ty.mapRefs_cancel fun r _ => permutation.symm_apply_apply r
  rw [Node.relocate, Node.relocate, type]

namespace Graph

/-- The second graph has the nodes of the first under other numbers, and binds the same names to them. -/
structure Permutes (g g' : Graph) (permutation : Equiv.Perm Ref) : Prop where
  node : ∀ r, g'.node? (permutation r) = (g.node? r).map (Node.relocate permutation)
  tops : g'.tops.entries = g.tops.entries.map fun top => (top.1, permutation top.2)

namespace Permutes

variable {g g' : Graph} {permutation : Equiv.Perm Ref} (permutes : g.Permutes g' permutation)

include permutes

theorem symm : g'.Permutes g permutation.symm where
  node := by
    intro r
    obtain ⟨old, rfl⟩ := permutation.surjective r
    rw [permutes.node, permutation.symm_apply_apply, Option.map_map]
    cases g.node? old with
    | none => rfl
    | some node => simp [Node.relocate_symm]
  tops := by
    rw [permutes.tops, List.map_map]
    simp [Function.comp_def]

theorem type?_image (r : Ref) : g'.type? (permutation r) = (g.type? r).map (Ty.mapRefs permutation) := by
  rw [type?, permutes.node, type?, Option.map_map, Option.map_map]
  rfl

theorem kind?_image (r : Ref) : g'.kind? (permutation r) = g.kind? r := by
  rw [kind?, permutes.node, kind?, Option.map_map]
  congr 1
  funext node
  exact Ty.kind_mapRefs permutation node.type

theorem lt_iff (r : Ref) : permutation r < g'.size ↔ r < g.size := by
  rw [← Nat.not_le, ← Nat.not_le, ← node?_eq_none_iff, ← node?_eq_none_iff, permutes.node,
    Option.map_eq_none_iff]

theorem mem_members_iff (r m : Ref) : permutation m ∈ g'.members (permutation r) ↔ m ∈ g.members r := by
  rw [g'.mem_members_iff, g.mem_members_iff, permutes.type?_image]
  constructor
  · rintro ⟨members, found, listed⟩
    obtain ⟨type, there, moved⟩ := Option.map_eq_some_iff.1 found
    cases type with
    | union olds =>
      cases moved
      obtain ⟨old, member, same⟩ := OrderedSet.mem_map.1 listed
      exact ⟨olds, there, permutation.injective same ▸ member⟩
    | _ => cases moved
  · rintro ⟨olds, there, member⟩
    rw [there]
    exact ⟨olds.map permutation, rfl, OrderedSet.mem_map.2 ⟨m, member, rfl⟩⟩

end Permutes

section Permuted

variable (g : Graph) (permutation : Equiv.Perm Ref) (inside : ∀ r, permutation r < g.size ↔ r < g.size)

include inside in
theorem symm_lt (i : Fin g.size) : permutation.symm i < g.size :=
  (inside _).1 (by rw [permutation.apply_symm_apply]; exact i.isLt)

/-- The nodes of the graph, each over the new numbers and at its new number. -/
def permutedNodes : Array Node :=
  Array.ofFn fun i : Fin g.size =>
    have bound : permutation.symm i < g.nodes.size := g.symm_lt permutation inside i
    g.nodes[permutation.symm i].relocate permutation

theorem getElem?_permutedNodes (r : Ref) :
    (g.permutedNodes permutation inside)[permutation r]? = (g.node? r).map (Node.relocate permutation) := by
  by_cases here : r < g.size
  · have there := (inside r).2 here
    have known : g.node? r = some g.nodes[r] := Array.getElem?_eq_getElem here
    rw [permutedNodes, Array.getElem?_ofFn, dif_pos there, known]
    simp only [Option.map_some, permutation.symm_apply_apply]
    rfl
  · have gone : ¬ permutation r < g.size := fun there => here ((inside r).1 there)
    simp [permutedNodes, gone, g.node?_eq_none_iff.2 (Nat.not_lt.1 here)]

theorem exists_of_mem_permutedNodes {node : Node} (listed : node ∈ g.permutedNodes permutation inside) :
    ∃ old ∈ g.nodes, node = old.relocate permutation := by
  obtain ⟨i, rfl⟩ := Array.mem_ofFn.1 listed
  exact ⟨_, Array.getElem_mem _, rfl⟩

/-- The graph with its nodes under other numbers. -/
def permuted : Graph where
  nodes := g.permutedNodes permutation inside
  tops := g.tops.mapValues permutation
  valid := by
    have size : (g.permutedNodes permutation inside).size = g.size := by simp [permutedNodes]
    refine ⟨?_, ?_, ?_⟩
    · intro r top
      rw [size]
      simp only [OrderedMap.values, OrderedMap.mapValues, List.map_map, List.mem_map] at top
      obtain ⟨entry, listed, rfl⟩ := top
      exact (inside entry.2).2 (g.tops_lt (List.mem_map_of_mem listed))
    · intro node listed r child
      obtain ⟨old, before, rfl⟩ := g.exists_of_mem_permutedNodes permutation inside listed
      have children : (old.relocate permutation).children = old.children.map permutation :=
        Ty.children_mapRefs fun a _ b _ same => permutation.injective same
      rw [children] at child
      obtain ⟨r, member, rfl⟩ := List.mem_map.1 child
      rw [size]
      exact (inside r).2 (g.valid.children_lt old before r member)
    · intro node listed members type a inA b inB same
      obtain ⟨old, before, rfl⟩ := g.exists_of_mem_permutedNodes permutation inside listed
      obtain ⟨olds, oldType, rfl⟩ : ∃ olds, old.type = .union olds ∧ olds.map permutation = members := by
        rw [Node.relocate] at type
        cases oldType : old.type with
        | union olds =>
          rw [oldType] at type
          cases type
          exact ⟨olds, rfl, rfl⟩
        | _ =>
          rw [oldType] at type
          cases type
      obtain ⟨c, inC, rfl⟩ := OrderedSet.mem_map.1 inA
      obtain ⟨d, inD, rfl⟩ := OrderedSet.mem_map.1 inB
      have kinds : ∀ r, kindAt? (g.permutedNodes permutation inside) (permutation r) = kindAt? g.nodes r := by
        intro r
        rw [kindAt?, getElem?_permutedNodes, Option.map_map, kindAt?]
        refine congrArg (Option.map · (g.node? r)) (funext fun node => ?_)
        exact Ty.kind_mapRefs permutation node.type
      rw [kinds, kinds] at same
      rw [g.valid.kinds_differ old before olds oldType c inC d inD same]

theorem permutes_permuted : g.Permutes (g.permuted permutation inside) permutation :=
  ⟨g.getElem?_permutedNodes permutation inside, rfl⟩

end Permuted

/-- The nodes of one sort can be given smaller numbers than the others. -/
theorem exists_permuted_first (g : Graph) (first : Ref → Prop) :
    ∃ permutation g', g.Permutes g' permutation ∧
      ∀ a b, a < g.size → b < g.size → first a → ¬ first b → permutation a < permutation b := by
  obtain ⟨permutation, inside, order⟩ := exists_permutation_first g.size first
  exact ⟨permutation, _, g.permutes_permuted permutation inside, order⟩

end Graph

end SchemaGraph
