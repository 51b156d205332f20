import Mathlib
import SchemaGraph.Proofs.Graph.Matching
/-!
# Proofs.Graph.Bisimilarity -- the largest relation between types of one shape

`Ty.Agrees` is one layer of a shape in the words of a reader: two types agree when their kinds do and
their constituents are related, where the members of unions are counted and sought by kind, and the
properties of records by name. A relation is a bisimulation when it relates only references that are
equal or whose types agree. `Graph.Bisimilar` is the union of all of them, so it is the largest
(`Graph.bisimilar_of_bisimulation`), and it is one itself (`Graph.bisimulation_bisimilar`).

The comparison of two types of a graph, cyclic or not, ends with the answer whether they are bisimilar
(`Graph.shape_is_largest_bisimulation`).
-/

namespace SchemaGraph

set_option autoImplicit false

/-- Two types of one kind, with related constituents: unions of as many members, each related to the
member of its kind, and records of the same names, with related types that are optional in both or in
neither. -/
inductive Ty.Agrees (kind? : Ref → Option Kind) (rel : Ref → Ref → Prop) : Ty → Ty → Prop
  | primitive {p : Primitive} : Agrees kind? rel (.primitive p) (.primitive p)
  | array {a b : Ref} : rel a b → Agrees kind? rel (.array a) (.array b)
  | map {a b : Ref} : rel a b → Agrees kind? rel (.map a) (.map b)
  | enum {l r : OrderedSet String} : (∀ c, c ∈ l ↔ c ∈ r) → Agrees kind? rel (.enum l) (.enum r)
  | union {l r : OrderedSet Ref} : l.size = r.size →
      (∀ m ∈ l, ∃ n ∈ r, kind? m = kind? n ∧ rel m n) → Agrees kind? rel (.union l) (.union r)
  | record {l r : Record} :
      (∀ name, name ∈ l.properties.keys ↔ name ∈ r.properties.keys) →
      (∀ name p q, l.property? name = some p → r.property? name = some q →
        p.optional = q.optional ∧ rel p.type q.type) →
      Agrees kind? rel (.record l) (.record r)

theorem Ty.Agrees.mono {kind? : Ref → Option Kind} {rel wider : Ref → Ref → Prop} {s t : Ty}
    (widen : ∀ x y, rel x y → wider x y) (agrees : s.Agrees kind? rel t) : s.Agrees kind? wider t := by
  cases agrees with
  | primitive => exact .primitive
  | array items => exact .array (widen _ _ items)
  | map values => exact .map (widen _ _ values)
  | enum cases => exact .enum cases
  | union size members =>
    refine .union size fun m inL => ?_
    obtain ⟨n, inR, same, related⟩ := members m inL
    exact ⟨n, inR, same, widen _ _ related⟩
  | record names types =>
    refine .record names fun name p q foundP foundQ => ?_
    exact (types name p q foundP foundQ).imp_right (widen _ _)

/-- But for unions, types agree when they are alike. -/
theorem Ty.agrees_iff_alike {kind? : Ref → Option Kind} {rel : Ref → Ref → Prop} {s t : Ty}
    (plain : s.kind ≠ .union) : s.Agrees kind? rel t ↔ s.Alike kind? rel t := by
  constructor
  · intro agrees
    cases agrees with
    | primitive => exact .primitive
    | array items => exact .array items
    | map values => exact .map values
    | enum cases => exact .enum cases
    | union => exact absurd rfl plain
    | record names types => exact .record names types
  · intro alike
    cases alike with
    | primitive => exact .primitive
    | array items => exact .array items
    | map values => exact .map values
    | enum cases => exact .enum cases
    | union => exact absurd rfl plain
    | record names types => exact .record names types

theorem Ty.Agrees.kind_eq {kind? : Ref → Option Kind} {rel : Ref → Ref → Prop} {s t : Ty}
    (agrees : s.Agrees kind? rel t) : s.kind = t.kind := by
  cases agrees <;> rfl

theorem Ty.agrees_union_iff {kind? : Ref → Option Kind} {rel : Ref → Ref → Prop} {l r : OrderedSet Ref} :
    (Ty.union l).Agrees kind? rel (.union r) ↔
      l.size = r.size ∧ ∀ m ∈ l, ∃ n ∈ r, kind? m = kind? n ∧ rel m n := by
  constructor
  · intro agrees
    cases agrees with
    | union size members => exact ⟨size, members⟩
  · rintro ⟨size, members⟩
    exact .union size members

namespace Graph

section Layers

variable (g : Graph) (rel : Ref → Ref → Prop)

/-- Two references designate types that agree. -/
def AgreesAt (a b : Ref) : Prop :=
  ∃ s t, g.type? a = some s ∧ g.type? b = some t ∧ s.Agrees g.kind? rel t

/-- Related references are equal or designate types that agree. -/
def Bisimulation : Prop := ∀ a b, rel a b → a = b ∨ g.AgreesAt rel a b

/-- Some bisimulation relates the references. -/
def Bisimilar (a b : Ref) : Prop := ∃ rel, g.Bisimulation rel ∧ rel a b

end Layers

variable {g : Graph} {rel : Ref → Ref → Prop} {a b : Ref}

/-! ## The largest bisimulation -/

theorem bisimilar_of_bisimulation (bisimulation : g.Bisimulation rel) (related : rel a b) :
    g.Bisimilar a b := ⟨rel, bisimulation, related⟩

/-- Being bisimilar is a bisimulation. -/
theorem bisimulation_bisimilar : g.Bisimulation g.Bisimilar := by
  rintro a b ⟨rel, bisimulation, related⟩
  refine (bisimulation a b related).imp_right ?_
  rintro ⟨s, t, left, right, agrees⟩
  exact ⟨s, t, left, right, agrees.mono fun _ _ => bisimilar_of_bisimulation bisimulation⟩

/-! ## The comparison decides it -/

/-- In a graph the two ways to compare one layer come to the same: the members of a union differ in
kind, so that counting them is enough. -/
theorem agreesAt_iff_alikeAt : g.AgreesAt rel a b ↔ g.AlikeAt rel a b := by
  refine exists_congr fun s => exists_congr fun t => and_congr_right fun left => and_congr_right fun right => ?_
  by_cases kinds : s.kind = .union ∧ t.kind = .union
  · obtain ⟨l, rfl⟩ := Ty.exists_union_of_kind kinds.1
    obtain ⟨r, rfl⟩ := Ty.exists_union_of_kind kinds.2
    rw [Ty.agrees_union_iff, Ty.alike_union_iff (g.nodup_kinds_of_union left) (g.nodup_kinds_of_union right)]
  · by_cases plain : s.kind = .union
    · -- neither holds of a union and a type of another kind
      have other : s.kind ≠ t.kind := fun same => kinds ⟨plain, same ▸ plain⟩
      refine iff_of_false (fun agrees => other agrees.kind_eq) fun alike => other ?_
      cases alike <;> rfl
    · exact Ty.agrees_iff_alike plain

/-- A matching relation, with equality, is a bisimulation. -/
theorem Matching.bisimulation (matching : g.Matching rel) :
    g.Bisimulation fun x y => x = y ∨ rel x y := by
  rintro a b (same | related)
  · exact .inl same
  · exact .inr (agreesAt_iff_alikeAt.2 (matching a b related))

/-- A bisimulation, without what is equal anyway, is a matching relation. -/
theorem Bisimulation.matching (bisimulation : g.Bisimulation rel) :
    g.Matching fun x y => rel x y ∧ x ≠ y := by
  rintro a b ⟨related, differ⟩
  have agrees := (bisimulation a b related).resolve_left differ
  refine (agreesAt_iff_alikeAt.1 agrees).mono fun x y inner => ?_
  by_cases same : x = y
  · exact .inl same
  · exact .inr ⟨inner, same⟩

theorem sameShape_iff_bisimilar : g.sameShape false a b = true ↔ g.Bisimilar a b := by
  rw [sameShape_iff]
  constructor
  · rintro (same | ⟨rel, matching, related⟩)
    · have equality : g.Bisimulation Eq := fun _ _ => .inl
      exact bisimilar_of_bisimulation equality same
    · exact bisimilar_of_bisimulation matching.bisimulation (.inr related)
  · rintro ⟨rel, bisimulation, related⟩
    by_cases same : a = b
    · exact .inl same
    · exact .inr ⟨_, bisimulation.matching, related, same⟩

theorem sameShape?_eq_some {conflate : Bool} (inA : a < g.size) (inB : b < g.size) :
    g.sameShape? conflate a b = some (g.sameShape conflate a b) := by
  by_cases same : a = b
  · subst same
    rw [sameShape?, if_pos rfl, sameShape_refl]
  · rw [sameShape?, if_neg same, has, has, decide_eq_true inA, decide_eq_true inB]
    rfl

/-- The comparison of two types of a graph has an answer, and it is whether the largest bisimulation
holds of them. -/
theorem shape_is_largest_bisimulation (g : Graph) (a b : Ref) (inA : a < g.size) (inB : b < g.size) :
    (∃ answer, g.sameShape? false a b = some answer ∧ (answer = true ↔ g.Bisimilar a b)) ∧
      g.Bisimulation g.Bisimilar ∧
      ∀ rel, g.Bisimulation rel → ∀ x y, rel x y → g.Bisimilar x y := by
  refine ⟨⟨_, sameShape?_eq_some inA inB, sameShape_iff_bisimilar⟩, bisimulation_bisimilar, ?_⟩
  exact fun rel bisimulation x y => bisimilar_of_bisimulation bisimulation

/-- Lists of lists: one that is its own items, and two that are each other's. -/
def loops : Graph :=
  ⟨#[⟨.array 0, .empty⟩, ⟨.array 2, .empty⟩, ⟨.array 1, .empty⟩], .empty,
    firstFault?_eq_none_iff.1 (by decide +kernel)⟩

/-- Cycles of different lengths have one shape. -/
theorem bisimilar_loops : (0 < loops.size ∧ 1 < loops.size) ∧
    loops.sameShape? false 0 1 = some true ∧ loops.Bisimilar 0 1 := by
  have inside : 0 < loops.size ∧ 1 < loops.size := by decide
  have same : loops.sameShape? false 0 1 = some true := by cbv
  obtain ⟨⟨answer, found, decides⟩, _⟩ := shape_is_largest_bisimulation loops 0 1 inside.1 inside.2
  rw [same] at found
  cases found
  exact ⟨inside, same, decides.1 rfl⟩

end Graph

end SchemaGraph
