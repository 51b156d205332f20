import Mathlib
import SchemaGraph.Graph.Recursion
import SchemaGraph.Proofs.Graph.Walk
import SchemaGraph.Proofs.Node
/-!
# Proofs.Graph.Recursion -- recursive types are the types on a cycle

The nodes of a strongly connected component lead to each other. So a node is on a cycle if its component
has a second node, and if it has an edge to itself; and a cycle does not leave the component
(`StrongComponents.onCycle_iff`). A search for components has to find every node once, together with what
it leads to and what leads to it (`StrongComponents`); `mutualComponents` does
(`strongComponents_mutual`).

* `Graph.recursive_types_on_cycles`: whatever search finds the components, the recursive types are those
  that a path of constituents leads back to.
-/

namespace SchemaGraph

set_option autoImplicit false

open Relation

/-! ## Strongly connected components -/

/-- A path of edges leads from the first node to the second. -/
def LeadsAlong (edges : List (Ref × Ref)) (a b : Ref) : Prop :=
  ReflTransGen (fun a b => (a, b) ∈ edges) a b

/-- The lists are the strongly connected components of the directed graph. -/
structure StrongComponents (size : Nat) (edges : List (Ref × Ref)) (components : List (List Ref)) :
    Prop where
  /-- Every node is in one component, once. -/
  perm : components.flatten.Perm (List.range size)
  /-- The nodes of a component are those that lead to each other. -/
  mem_iff : ∀ component ∈ components, ∀ a ∈ component, ∀ b < size,
    b ∈ component ↔ LeadsAlong edges a b ∧ LeadsAlong edges b a

/-- Every edge is between nodes of the graph. -/
def EdgesWithin (size : Nat) (edges : List (Ref × Ref)) : Prop :=
  ∀ edge ∈ edges, edge.1 < size ∧ edge.2 < size

theorem isTrivial_iff {edges : List (Ref × Ref)} {component : List Ref} :
    isTrivial edges component = true ↔ ∃ r, component = [r] ∧ (r, r) ∉ edges := by
  unfold isTrivial
  split
  · rename_i r
    have no_loop : (∀ edge ∈ edges, edge ≠ (r, r)) ↔ (r, r) ∉ edges :=
      ⟨fun apart loop => apart _ loop rfl, fun loop edge listed same => loop (same ▸ listed)⟩
    simp only [List.all_eq_true, decide_eq_true_eq, no_loop, List.cons.injEq, and_true, exists_eq_left']
  · rename_i several
    simp only [Bool.false_eq_true, false_iff, not_exists, not_and]
    exact fun r single => absurd single (several r)

section Components

variable {size : Nat} {edges : List (Ref × Ref)} {components : List (List Ref)} {component : List Ref}

namespace StrongComponents

theorem lt_size (strong : StrongComponents size edges components) (listed : component ∈ components)
    {r : Ref} (member : r ∈ component) : r < size :=
  List.mem_range.1 (strong.perm.mem_iff.1 (List.mem_flatten.2 ⟨component, listed, member⟩))

theorem exists_component (strong : StrongComponents size edges components) {r : Ref} (inside : r < size) :
    ∃ component ∈ components, r ∈ component :=
  List.mem_flatten.1 (strong.perm.mem_iff.2 (List.mem_range.2 inside))

theorem nodup_component (strong : StrongComponents size edges components)
    (listed : component ∈ components) : component.Nodup :=
  (List.nodup_flatten.1 (strong.perm.nodup_iff.2 List.nodup_range)).1 component listed

/-- A node is on a cycle exactly if its component is not trivial. -/
theorem onCycle_iff (strong : StrongComponents size edges components) (within : EdgesWithin size edges)
    (listed : component ∈ components) {r : Ref} (member : r ∈ component) :
    isTrivial edges component = false ↔ TransGen (fun a b => (a, b) ∈ edges) r r := by
  rw [Bool.eq_false_iff, ne_eq, isTrivial_iff]
  constructor
  · intro cyclic
    by_cases alone : ∀ s ∈ component, s = r
    · have single : component = [r] := by
        have distinct := strong.nodup_component listed
        exact List.perm_singleton.1 ((List.perm_ext_iff_of_nodup distinct (List.nodup_singleton r)).2
          fun s => ⟨fun inside => List.mem_singleton.2 (alone s inside),
            fun same => List.mem_singleton.1 same ▸ member⟩)
      by_contra apart
      exact cyclic ⟨r, single, fun loop => apart (.single loop)⟩
    · simp only [not_forall] at alone
      obtain ⟨s, inside, other⟩ := alone
      obtain ⟨there, back⟩ :=
        (strong.mem_iff component listed r member s (strong.lt_size listed inside)).1 inside
      rcases ReflTransGen.cases_head there with same | ⟨first, step, rest⟩
      · exact absurd same.symm other
      · exact TransGen.head' step (rest.trans back)
  · rintro cycle ⟨s, single, apart⟩
    have same : r = s := by
      rw [single] at member
      exact List.mem_singleton.1 member
    subst same
    obtain ⟨first, step, rest⟩ := TransGen.head'_iff.1 cycle
    have inside : first ∈ component :=
      (strong.mem_iff component listed r member first (within _ step).2).2 ⟨.single step, rest⟩
    rw [single, List.mem_singleton] at inside
    exact apart (inside ▸ step)

end StrongComponents

/-! ## Finding them by what leads to what -/

theorem removeAll_eq_filter (refs others : List Ref) :
    refs.removeAll others = refs.filter (· ∉ others) := by
  simp [List.removeAll]

/-- Every element is in one part. -/
theorem flatten_partsBy_perm (part : Ref → List Ref) (refs : List Ref) :
    (partsBy part refs).flatten.Perm refs := by
  fun_induction partsBy part refs with
  | case1 => exact .nil
  | case2 r rest own ih =>
    rw [List.flatten_cons, List.cons_append]
    refine .cons r ((List.Perm.append_left _ ih).trans ?_)
    rw [removeAll_eq_filter]
    simpa using List.filter_append_perm (fun s => decide (s ∈ own)) rest

/-- If the parts are those of an equivalence, so are the lists. -/
theorem mem_partsBy {part : Ref → List Ref} {same : Ref → Ref → Prop} (equivalence : Equivalence same)
    {refs : List Ref} (parts : ∀ a ∈ refs, ∀ b ∈ refs, b ∈ part a ↔ same a b)
    (listed : component ∈ partsBy part refs) {a b : Ref} (member : a ∈ component) (inside : b ∈ refs) :
    b ∈ component ↔ same a b := by
  fun_induction partsBy part refs with
  | case1 => cases listed
  | case2 r rest own ih =>
    have ofFirst : ∀ s ∈ rest, s ∈ own ↔ same r s :=
      fun s later => parts r List.mem_cons_self s (List.mem_cons_of_mem _ later)
    rcases List.mem_cons.1 listed with rfl | later
    · have first : ∀ s ∈ r :: rest, s ∈ r :: rest.filter (· ∈ own) ↔ same r s := by
        intro s known
        rcases List.mem_cons.1 known with rfl | known
        · simp [equivalence.refl s]
        · constructor
          · intro found
            rcases List.mem_cons.1 found with rfl | found
            · exact equivalence.refl s
            · exact (ofFirst s known).1 (of_decide_eq_true (List.mem_filter.1 found).2)
          · intro related
            exact List.mem_cons_of_mem _
              (List.mem_filter.2 ⟨known, decide_eq_true ((ofFirst s known).2 related)⟩)
      have known : a ∈ r :: rest :=
        List.cons_subset_cons r (List.filter_subset_self rest) member
      have here := (first a known).1 member
      rw [first b inside]
      exact ⟨fun there => equivalence.trans (equivalence.symm here) there,
        fun there => equivalence.trans here there⟩
    · have fewer : ∀ s, s ∈ rest.removeAll own ↔ s ∈ rest ∧ ¬ same r s := by
        intro s
        rw [removeAll_eq_filter, List.mem_filter, decide_eq_true_eq]
        exact and_congr_right fun known => not_congr (ofFirst s known)
      have among : ∀ {s}, s ∈ component → s ∈ rest ∧ ¬ same r s := fun {s} found =>
        (fewer s).1 ((flatten_partsBy_perm part _).mem_iff.1
          (List.mem_flatten.2 ⟨component, later, found⟩))
      by_cases related : same r b
      · refine iff_of_false (fun found => (among found).2 related) fun there => ?_
        exact (among member).2 (equivalence.trans related (equivalence.symm there))
      · have behind : b ∈ rest := by
          refine (List.mem_cons.1 inside).resolve_left ?_
          rintro rfl
          exact related (equivalence.refl b)
        refine ih ?_ later ((fewer b).2 ⟨behind, related⟩)
        intro s known t known'
        exact parts s (List.mem_cons_of_mem _ ((fewer s).1 known).1) t
          (List.mem_cons_of_mem _ ((fewer t).1 known').1)

theorem mem_ledTo (within : EdgesWithin size edges) {r s : Ref} (inside : r < size) :
    s ∈ ledTo size edges r ↔ LeadsAlong edges r s := by
  have successors : ∀ a b, b ∈ (edges.filter fun edge => edge.1 = a).map Prod.snd ↔ (a, b) ∈ edges := by
    intro a b
    simp
  have closed : ∀ a, ∀ b ∈ (edges.filter fun edge => edge.1 = a).map Prod.snd, b ∈ List.range size :=
    fun a b step => List.mem_range.2 (within _ ((successors a b).1 step)).2
  rw [ledTo, mem_explore_iff_of_closed closed]
  simp only [successors, List.mem_singleton, exists_eq_left, List.mem_range, inside, true_and]
  rfl

theorem leadsAlong_swap {a b : Ref} :
    LeadsAlong (edges.map Prod.swap) a b ↔ LeadsAlong edges b a := by
  have turned : (fun a b => (a, b) ∈ edges.map Prod.swap) = Function.swap fun a b => (a, b) ∈ edges := by
    funext a b
    simp [Function.swap]
  rw [LeadsAlong, turned, reflTransGen_swap]
  rfl

/-- What leads to each other is one component. -/
theorem strongComponents_mutual (within : EdgesWithin size edges) :
    StrongComponents size edges (mutualComponents size edges) := by
  have turned : EdgesWithin size (edges.map Prod.swap) := by
    intro edge listed
    obtain ⟨other, known, rfl⟩ := List.mem_map.1 listed
    exact (within other known).symm
  have equivalence : Equivalence fun a b => LeadsAlong edges a b ∧ LeadsAlong edges b a :=
    ⟨fun _ => ⟨.refl, .refl⟩, fun both => both.symm,
      fun one two => ⟨one.1.trans two.1, two.2.trans one.2⟩⟩
  refine ⟨flatten_partsBy_perm _ _, fun component listed a member b inside => ?_⟩
  refine mem_partsBy equivalence ?_ listed member (List.mem_range.2 inside)
  intro a known b _
  have bound := List.mem_range.1 known
  rw [List.mem_filter, decide_eq_true_eq, mem_ledTo within bound, mem_ledTo turned bound, leadsAlong_swap]

end Components

namespace Graph

variable (g : Graph)

/-! ## Recursive types -/

theorem mem_dependencies {a b : Ref} : (a, b) ∈ g.dependencies ↔ b ∈ g.children a := by
  simp only [dependencies, List.mem_flatMap, List.mem_map, Prod.mk.injEq]
  constructor
  · rintro ⟨_, _, _, child, rfl, rfl⟩
    exact child
  · intro child
    refine ⟨a, ?_, b, child, rfl, rfl⟩
    rw [children] at child
    split at child
    · rename_i node found
      exact g.mem_refs.2 (g.lt_of_node? found)
    · cases child

theorem edgesWithin_dependencies : EdgesWithin g.size g.dependencies := by
  rintro ⟨a, b⟩ listed
  obtain ⟨r, known, child, _, same⟩ : ∃ r ∈ g.refs, ∃ child ∈ g.children r, (r, child) = (a, b) := by
    simpa [dependencies] using listed
  cases same
  exact ⟨g.mem_refs.1 known, g.children_lt (g.mem_dependencies.1 listed)⟩

theorem mem_recursiveTypes {search : ComponentSearch} {r : Ref} :
    r ∈ g.recursiveTypes search ↔ ∃ component ∈ search g.size g.dependencies,
      isTrivial g.dependencies component = false ∧ r ∈ component := by
  simp [recursiveTypes, and_assoc]

/-- The recursive types are listed in increasing order, each once. -/
theorem increasing_recursiveTypes (search : ComponentSearch) :
    (g.recursiveTypes search).Pairwise (· < ·) := by
  have ordered : (g.recursiveTypes search).Pairwise (· ≤ ·) :=
    (pairwise_sorted_refs _).sublist (firsts_sublist _)
  have distinct : (g.recursiveTypes search).Pairwise (· ≠ ·) := nodup_firsts _
  exact ordered.imp₂ (fun _ _ => Nat.lt_of_le_of_ne) distinct

/-- Whatever search finds the strongly connected components of the references between types, the
recursive types are listed in increasing order, and they are the types that references lead back to. -/
theorem recursive_types_on_cycles (search : ComponentSearch)
    (finds : StrongComponents g.size g.dependencies (search g.size g.dependencies)) :
    (g.recursiveTypes search).Pairwise (· < ·) ∧
      (∀ r, r ∈ g.recursiveTypes search ↔ TransGen (fun a b => b ∈ g.children a) r r) ∧
      ∀ r, g.isRecursive search r = true ↔ TransGen (fun a b => b ∈ g.children a) r r := by
  have steps : (fun a b => (a, b) ∈ g.dependencies) = fun a b => b ∈ g.children a := by
    funext a b
    exact propext g.mem_dependencies
  have onCycle : ∀ r, r ∈ g.recursiveTypes search ↔ TransGen (fun a b => b ∈ g.children a) r r := by
    intro r
    rw [mem_recursiveTypes, ← steps]
    constructor
    · rintro ⟨component, listed, cyclic, member⟩
      exact (finds.onCycle_iff g.edgesWithin_dependencies listed member).1 cyclic
    · intro cycle
      obtain ⟨first, step, _⟩ := TransGen.head'_iff.1 cycle
      obtain ⟨component, listed, member⟩ := finds.exists_component (g.edgesWithin_dependencies _ step).1
      exact ⟨component, listed, (finds.onCycle_iff g.edgesWithin_dependencies listed member).2 cycle,
        member⟩
  refine ⟨g.increasing_recursiveTypes search, onCycle, fun r => ?_⟩
  rw [isRecursive, decide_eq_true_eq, onCycle]

/-- A tree with its children in an array, a record with itself as a property, a record that refers to the
tree twice, and a map of itself that nothing refers to. -/
def grove : Graph :=
  ⟨#[.required [("children", 1), ("owner", 2)] false, ⟨.array 0, .empty⟩, .required [("self", 2)] false,
      .required [("first", 0), ("second", 0)] false, ⟨.map 4, .empty⟩],
    .ofList [("Grove", 3)], firstFault?_eq_none_iff.1 (by decide +kernel)⟩

theorem recursive_types_of_grove :
    StrongComponents grove.size grove.dependencies (mutualComponents grove.size grove.dependencies) ∧
      grove.recursiveTypes mutualComponents = [0, 1, 2, 4] ∧
      TransGen (fun a b => b ∈ grove.children a) 4 4 ∧
      ¬ TransGen (fun a b => b ∈ grove.children a) 3 3 := by
  have strong := strongComponents_mutual grove.edgesWithin_dependencies
  have listed : grove.recursiveTypes mutualComponents = [0, 1, 2, 4] := by cbv
  obtain ⟨_, onCycle, _⟩ := recursive_types_on_cycles grove mutualComponents strong
  refine ⟨strong, listed, (onCycle 4).1 ?_, fun cycle => ?_⟩
  · rw [listed]
    decide
  · have member := (onCycle 3).2 cycle
    rw [listed] at member
    exact absurd member (by decide)

end Graph

end SchemaGraph
