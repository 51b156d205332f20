import Mathlib.Data.Finset.Card
import Mathlib.Data.Finset.Range
import Mathlib.Logic.Relation
import SchemaGraph.Graph.Matching
/-!
# Proofs.Graph.Walk -- what walking through a graph reaches

`explore` enters exactly the references that the pending ones lead to along unvisited references
(`mem_explore_iff`). Erasing a reference when it is entered loses nothing, for a path that comes
back to it can be cut there (`avoids_or_restarts`).

* `Graph.mem_reachable_iff`: the reachable types are those that a path of constituents leads to.
* `Graph.mem_leaves_iff`: the leaves of a set of types are what it unfolds to through unions.
-/

namespace SchemaGraph

set_option autoImplicit false

open Relation

/-- One step of a walk into a reference of the list. -/
def StepIn (next : Ref → List Ref) (unvisited : List Ref) (a b : Ref) : Prop :=
  b ∈ next a ∧ b ∈ unvisited

section Explore

variable {next : Ref → List Ref} {unvisited pending : List Ref}

/-- A path either avoids a reference that it does not end in, or goes on from it without coming
back to it. -/
theorem avoids_or_restarts {s p r : Ref} (path : ReflTransGen (StepIn next unvisited) p r)
    (other : r ≠ s) :
    (p ≠ s ∧ ReflTransGen (StepIn next (unvisited.erase s)) p r) ∨
      ∃ q ∈ next s, q ∈ unvisited.erase s ∧
        ReflTransGen (StepIn next (unvisited.erase s)) q r := by
  induction path using ReflTransGen.head_induction_on with
  | refl => exact .inl ⟨other, .refl⟩
  | @head a b first _ ih =>
    rcases ih with ⟨avoids, rest⟩ | restarts
    · have open_ : b ∈ unvisited.erase s := (List.mem_erase_of_ne avoids).2 first.2
      by_cases here : a = s
      · subst here
        exact .inr ⟨b, first.1, open_, rest⟩
      · exact .inl ⟨here, .head ⟨first.1, open_⟩ rest⟩
    · exact .inr restarts

theorem StepIn.mono {wider : List Ref} (more : ∀ r ∈ unvisited, r ∈ wider) {a b : Ref}
    (step : StepIn next unvisited a b) : StepIn next wider a b := ⟨step.1, more b step.2⟩

/-- The references that are entered are those that the pending ones lead to along unvisited
references. -/
theorem mem_explore_iff {r : Ref} :
    r ∈ explore next unvisited pending ↔
      ∃ p ∈ pending, p ∈ unvisited ∧ ReflTransGen (StepIn next unvisited) p r := by
  fun_induction explore next unvisited pending with
  | case1 => simp
  | case2 unvisited s rest fresh ih =>
    have fewer : ∀ q ∈ unvisited.erase s, q ∈ unvisited := fun q => List.mem_of_mem_erase
    rw [List.mem_cons, ih]
    constructor
    · rintro (rfl | ⟨p, listed, unvisitedP, path⟩)
      · exact ⟨r, List.mem_cons_self, fresh, .refl⟩
      · have wide := ReflTransGen.mono (fun _ _ => StepIn.mono fewer) _ _ path
        rcases List.mem_append.1 listed with child | later
        · exact ⟨s, List.mem_cons_self, fresh, .head ⟨child, fewer p unvisitedP⟩ wide⟩
        · exact ⟨p, List.mem_cons_of_mem _ later, fewer p unvisitedP, wide⟩
    · rintro ⟨p, listed, unvisitedP, path⟩
      by_cases here : r = s
      · exact .inl here
      · right
        rcases avoids_or_restarts path here with ⟨avoids, rest⟩ | ⟨q, child, open_, rest⟩
        · rcases List.mem_cons.1 listed with same | later
          · exact absurd same avoids
          · exact ⟨p, List.mem_append_right _ later, (List.mem_erase_of_ne avoids).2 unvisitedP, rest⟩
        · exact ⟨q, List.mem_append_left _ child, open_, rest⟩
  | case3 unvisited s rest known ih =>
    rw [ih]
    constructor
    · rintro ⟨p, later, unvisitedP, path⟩
      exact ⟨p, List.mem_cons_of_mem _ later, unvisitedP, path⟩
    · rintro ⟨p, listed, unvisitedP, path⟩
      rcases List.mem_cons.1 listed with rfl | later
      · exact absurd unvisitedP known
      · exact ⟨p, later, unvisitedP, path⟩

/-- If no step leaves the unvisited references, being unvisited asks nothing of a path. -/
theorem mem_explore_iff_of_closed (closed : ∀ a, ∀ b ∈ next a, b ∈ unvisited) {r : Ref} :
    r ∈ explore next unvisited pending ↔
      ∃ p ∈ pending, p ∈ unvisited ∧ ReflTransGen (fun a b => b ∈ next a) p r := by
  rw [mem_explore_iff]
  constructor
  · rintro ⟨p, listed, unvisitedP, path⟩
    exact ⟨p, listed, unvisitedP, ReflTransGen.mono (fun _ _ step => step.1) _ _ path⟩
  · rintro ⟨p, listed, unvisitedP, path⟩
    exact ⟨p, listed, unvisitedP, ReflTransGen.mono (fun a b step => ⟨step, closed a b step⟩) _ _ path⟩

/-- References without successors are entered in their order. -/
theorem explore_of_forall_nil (distinct : pending.Nodup) (listed : ∀ p ∈ pending, p ∈ unvisited)
    (ends : ∀ p ∈ pending, next p = []) : explore next unvisited pending = pending := by
  induction pending generalizing unvisited with
  | nil => exact explore_nil next unvisited
  | cons r rest ih =>
    rw [List.nodup_cons] at distinct
    rw [explore_cons, if_pos (listed r List.mem_cons_self), ends r List.mem_cons_self,
      List.nil_append, ih distinct.2]
    · intro p later
      have other : p ≠ r := fun same => distinct.1 (same ▸ later)
      exact (List.mem_erase_of_ne other).2 (listed p (List.mem_cons_of_mem _ later))
    · exact fun p later => ends p (List.mem_cons_of_mem _ later)

end Explore

namespace Graph

variable (g : Graph)

/-! ## Reachable types -/

/-- A path of constituents leads from the first type to the second. -/
def Leads (a b : Ref) : Prop := ReflTransGen (fun a b => b ∈ g.children a) a b

theorem mem_refs {r : Ref} : r ∈ g.refs ↔ r < g.size := List.mem_range

theorem tops_lt {r : Ref} (top : r ∈ g.tops.values) : r < g.size := g.valid.tops_lt r top

/-- The reachable types are those that a path from a top-level type leads to. -/
theorem mem_reachable_iff {r : Ref} : r ∈ g.reachable ↔ ∃ t ∈ g.tops.values, g.Leads t r := by
  rw [reachable, mem_explore_iff_of_closed fun a b child => g.mem_refs.2 (g.children_lt child)]
  constructor
  · rintro ⟨t, top, _, path⟩
    exact ⟨t, top, path⟩
  · rintro ⟨t, top, path⟩
    exact ⟨t, top, g.mem_refs.2 (g.tops_lt top), path⟩

theorem nodup_reachable : g.reachable.Nodup := nodup_explore List.nodup_range

theorem lt_of_mem_reachable {r : Ref} (reached : r ∈ g.reachable) : r < g.size :=
  g.mem_refs.1 (mem_of_mem_explore reached)

theorem reachable_children {r child : Ref} (reached : r ∈ g.reachable)
    (member : child ∈ g.children r) : child ∈ g.reachable := by
  obtain ⟨t, top, path⟩ := g.mem_reachable_iff.1 reached
  exact g.mem_reachable_iff.2 ⟨t, top, path.tail member⟩

theorem reachable_of_top {r : Ref} (top : r ∈ g.tops.values) : r ∈ g.reachable :=
  g.mem_reachable_iff.2 ⟨r, top, .refl⟩

theorem mem_reachableOf {kind : Kind} {r : Ref} :
    r ∈ g.reachableOf kind ↔ r ∈ g.reachable ∧ g.kind? r = some kind := by
  simp [reachableOf]

theorem nodup_reachableOf (kind : Kind) : (g.reachableOf kind).Nodup :=
  g.nodup_reachable.filter _

/-! ## Unions -/

/-- The first type has the second among the members of its unions, at some depth, or is it. -/
def Unfolds (a b : Ref) : Prop := ReflTransGen (fun a b => b ∈ g.members a) a b

theorem mem_members_iff {r m : Ref} :
    m ∈ g.members r ↔ ∃ members, g.type? r = some (.union members) ∧ m ∈ members := by
  rw [members]
  split
  · rename_i members found
    constructor
    · exact fun member => ⟨members, found, member⟩
    · rintro ⟨others, same, member⟩
      rw [found] at same
      cases same
      exact member
  · rename_i other
    constructor
    · exact fun member => absurd member (List.not_mem_nil)
    · rintro ⟨members, found, _⟩
      exact absurd found (other members)

theorem children_of_type? {r : Ref} {type : Ty} (found : g.type? r = some type) :
    g.children r = type.children := by
  rw [type?, Option.map_eq_some_iff] at found
  obtain ⟨node, at_, rfl⟩ := found
  rw [children, at_]
  rfl

theorem children_of_mem_members {r m : Ref} (member : m ∈ g.members r) : m ∈ g.children r := by
  obtain ⟨members, found, listed⟩ := g.mem_members_iff.1 member
  rw [g.children_of_type? found]
  exact listed

theorem kind?_of_type? {r : Ref} {type : Ty} (found : g.type? r = some type) :
    g.kind? r = some type.kind := by
  rw [type?, Option.map_eq_some_iff] at found
  obtain ⟨node, at_, rfl⟩ := found
  rw [kind?, at_]
  rfl

theorem exists_node? {r : Ref} (inside : r < g.size) : ∃ node, g.node? r = some node :=
  ⟨g.nodes[r], Array.getElem?_eq_getElem inside⟩

theorem type?_of_node? {r : Ref} {node : Node} (found : g.node? r = some node) :
    g.type? r = some node.type := congrArg (Option.map Node.type) found

theorem lt_of_node? {r : Ref} {node : Node} (found : g.node? r = some node) : r < g.size :=
  g.lt_of_type? (g.type?_of_node? found)

theorem exists_type? {r : Ref} (inside : r < g.size) : ∃ type, g.type? r = some type := by
  obtain ⟨node, found⟩ := g.exists_node? inside
  exact ⟨node.type, g.type?_of_node? found⟩

theorem exists_type?_of_kind? {r : Ref} {kind : Kind} (found : g.kind? r = some kind) :
    ∃ type, g.type? r = some type ∧ type.kind = kind := by
  rw [kind?, Option.map_eq_some_iff] at found
  obtain ⟨node, at_, rfl⟩ := found
  exact ⟨node.type, by rw [type?, at_]; rfl, rfl⟩

theorem kind?_eq_union {r m : Ref} (member : m ∈ g.members r) : g.kind? r = some .union := by
  obtain ⟨members, found, _⟩ := g.mem_members_iff.1 member
  exact g.kind?_of_type? found

/-- A type that is no union unfolds to itself alone. -/
theorem eq_of_unfolds {a b : Ref} (plain : g.kind? a ≠ some .union) (path : g.Unfolds a b) :
    b = a := by
  induction path using ReflTransGen.head_induction_on with
  | refl => rfl
  | head first _ _ => exact absurd (g.kind?_eq_union first) plain

/-- No union reaches itself through members of unions alone. -/
def UnionsEnd : Prop := ∀ r, ¬ TransGen (fun a b => b ∈ g.members a) r r

/-- Unions whose members are earlier nodes end. -/
theorem unionsEnd_of_lt (earlier : ∀ r < g.size, ∀ m ∈ g.members r, m < r) : g.UnionsEnd := by
  have descends : ∀ {a b : Ref}, TransGen (fun a b => b ∈ g.members a) a b → b < a := by
    have step : ∀ {a b : Ref}, b ∈ g.members a → b < a := by
      intro a b member
      obtain ⟨members, found, _⟩ := g.mem_members_iff.1 member
      exact earlier a (g.lt_of_type? found) b member
    intro a b path
    induction path with
    | single member => exact step member
    | tail _ member ih => exact Nat.lt_trans (step member) ih
  exact fun r cycle => absurd (descends cycle) (Nat.lt_irrefl r)

/-- If unions end, so does every recursion from a union to its members. -/
theorem UnionsEnd.wellFounded {g : Graph} (ends : g.UnionsEnd) :
    WellFounded fun m r => m ∈ g.members r := by
  classical
  let below := fun r => (Finset.range g.size).filter (TransGen (fun a b => b ∈ g.members a) r)
  refine Subrelation.wf ?_ (measure fun r => (below r).card).wf
  intro m r member
  refine Finset.card_lt_card ((Finset.ssubset_iff_of_subset ?_).2 ⟨m, ?_, ?_⟩)
  · intro s listed
    obtain ⟨bound, path⟩ := Finset.mem_filter.1 listed
    exact Finset.mem_filter.2 ⟨bound, .head member path⟩
  · have bound := g.children_lt (g.children_of_mem_members member)
    exact Finset.mem_filter.2 ⟨Finset.mem_range.2 bound, .single member⟩
  · exact fun again => ends m (Finset.mem_filter.1 again).2

/-- That recursion ends at every type exactly if unions end. -/
theorem unionsEnd_iff_wellFounded : g.UnionsEnd ↔ WellFounded fun m r => m ∈ g.members r := by
  refine ⟨UnionsEnd.wellFounded, fun ends r cycle => ?_⟩
  have back : TransGen (fun m r => m ∈ g.members r) r r := transGen_swap.1 cycle
  exact ends.transGen.asymmetric r r back back

theorem mem_leaves_iff {types : List Ref} {r : Ref} :
    r ∈ g.leaves types ↔ r < g.size ∧ g.kind? r ≠ some .union ∧ ∃ t ∈ types, g.Unfolds t r := by
  have closed : ∀ a, ∀ b ∈ g.members a, b ∈ g.refs := fun a b member =>
    g.mem_refs.2 (g.children_lt (g.children_of_mem_members member))
  rw [leaves, List.mem_filter, mem_explore_iff_of_closed closed, decide_eq_true_eq]
  constructor
  · rintro ⟨⟨t, listed, inside, path⟩, plain⟩
    refine ⟨?_, plain, t, listed, path⟩
    rcases ReflTransGen.cases_tail path with rfl | ⟨_, _, last⟩
    · exact g.mem_refs.1 inside
    · exact g.mem_refs.1 (closed _ _ last)
  · rintro ⟨inside, plain, t, listed, path⟩
    refine ⟨⟨t, listed, ?_, path⟩, plain⟩
    rcases ReflTransGen.cases_head path with rfl | ⟨_, first, _⟩
    · exact g.mem_refs.2 inside
    · obtain ⟨members, found, _⟩ := g.mem_members_iff.1 first
      exact g.mem_refs.2 (g.lt_of_type? found)

/-- Types that are no unions are their own leaves. -/
theorem leaves_of_plain {types : List Ref} (distinct : types.Nodup)
    (inside : ∀ r ∈ types, r < g.size) (plain : ∀ r ∈ types, g.kind? r ≠ some .union) :
    g.leaves types = types := by
  rw [leaves, explore_of_forall_nil distinct fun r listed => g.mem_refs.2 (inside r listed)]
  · rw [List.filter_eq_self]
    exact fun r listed => decide_eq_true (plain r listed)
  · intro r listed
    rw [members]
    split
    · rename_i found
      exact absurd (g.kind?_of_type? found) (plain r listed)
    · rfl

end Graph

end SchemaGraph
