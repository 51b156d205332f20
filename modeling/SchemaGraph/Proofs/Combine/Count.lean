import Mathlib
import SchemaGraph.Proofs.Combine.Rounds
/-!
# Proofs.Combine.Count -- how many records combining leaves

A round removes all members of a clique but one, and may lose records that nothing refers to any more.
But where merged records disagree on the type of a property, it merges the types of the property too,
and if those are records of no common clique it makes a fresh record, while the old ones may be kept
by other references. What a round leaves is the balance (`Plan.Replaces.recordCount_balance`).

Later rounds are compared and only kept if they leave fewer records, the first one is not. So combining
may leave more records than there were (`Settings.combine_leaves_more`), just when the first round makes
more fresh records than all rounds remove (`Settings.combine_leaves_no_more_iff`). A first round that is
compared as the others are cannot do that (`Settings.recordCount_laterRounds`).
-/

namespace SchemaGraph

set_option autoImplicit false

open Relation

/-! ## Counting -/

open Classical in
/-- How many elements of the set have the property. -/
noncomputable def countOf (s : Finset Nat) (p : Nat → Prop) : Nat := (s.filter p).card

theorem countOf_eq_card (s : Finset Nat) (p : Nat → Prop) [DecidablePred p] :
    countOf s p = (s.filter p).card := by
  unfold countOf
  congr

theorem countOf_add_not (s : Finset Nat) (p : Nat → Prop) :
    countOf s p + countOf s (fun n => ¬ p n) = s.card := by
  classical
  rw [countOf_eq_card, countOf_eq_card]
  exact Finset.card_filter_add_card_filter_not p

/-- Three properties, one of which each element has, share the set out. -/
theorem card_eq_countOf {s : Finset Nat} {p q r : Nat → Prop} (all : ∀ n ∈ s, p n ∨ q n ∨ r n)
    (pq : ∀ n ∈ s, p n → ¬ q n) (pr : ∀ n ∈ s, p n → ¬ r n) (qr : ∀ n ∈ s, q n → ¬ r n) :
    s.card = countOf s p + countOf s q + countOf s r := by
  classical
  have others : s.filter (fun n => ¬ p n) = s.filter fun n => q n ∨ r n := by
    refine Finset.filter_congr fun n member => ?_
    constructor
    · exact (all n member).resolve_left
    · rintro (hasQ | hasR) hasP
      · exact pq n member hasP hasQ
      · exact pr n member hasP hasR
  have rest : countOf s (fun n => ¬ p n) = countOf s q + countOf s r := by
    rw [countOf_eq_card, countOf_eq_card, countOf_eq_card, others, Finset.filter_or]
    exact Finset.card_union_of_disjoint (Finset.disjoint_filter.2 qr)
  rw [← countOf_add_not s p, rest, Nat.add_assoc]

/-- A relation that is functional both ways relates equally many elements on both sides. -/
theorem countOf_related {s t : Finset Nat} {rel : Nat → Nat → Prop}
    (right : ∀ n ∈ s, ∀ a b, rel n a → rel n b → a = b)
    (left : ∀ n m a, rel n a → rel m a → n = m) :
    countOf s (fun n => ∃ a ∈ t, rel n a) = countOf t fun a => ∃ n ∈ s, rel n a := by
  classical
  rw [countOf_eq_card, countOf_eq_card]
  have partner : ∀ n ∈ s.filter (fun n => ∃ a ∈ t, rel n a), ∃ a ∈ t, rel n a :=
    fun n member => (Finset.mem_filter.1 member).2
  refine Finset.card_bij (fun n member => (partner n member).choose) ?_ ?_ ?_
  · intro n member
    obtain ⟨inT, related⟩ := (partner n member).choose_spec
    exact Finset.mem_filter.2 ⟨inT, n, (Finset.mem_filter.1 member).1, related⟩
  · intro n inN m inM same
    have one := (partner n inN).choose_spec.2
    have two := (partner m inM).choose_spec.2
    rw [← same] at two
    exact left n m _ one two
  · intro a member
    obtain ⟨inT, n, inS, related⟩ := Finset.mem_filter.1 member
    have inside : n ∈ s.filter fun n => ∃ a ∈ t, rel n a :=
      Finset.mem_filter.2 ⟨inS, a, inT, related⟩
    exact ⟨n, inside, right n inS _ a (partner n inside).choose_spec.2 related⟩

namespace Graph

/-- The reachable records. -/
def recordSet (g : Graph) : Finset Ref := (g.reachableOf .record).toFinset

theorem card_recordSet (g : Graph) : g.recordSet.card = g.recordCount :=
  List.toFinset_card_of_nodup (g.nodup_reachableOf .record)

theorem mem_recordSet {g : Graph} {r : Ref} :
    r ∈ g.recordSet ↔ r ∈ g.reachable ∧ g.kind? r = some .record := by
  rw [recordSet, List.mem_toFinset, g.mem_reachableOf]

end Graph

namespace Plan

/-! ## The balance of a round -/

variable (plan : Plan) (trace : Trace) (h : Graph)

/-- How many records are merged away: all members of a group but one. -/
def removed : Nat := plan.groups.flatten.length - plan.groups.length

/-- The reachable records that belong to no group. -/
def ungrouped : Finset Ref := plan.source.recordSet.filter fun old => plan.groupOf? old = none

/-- How many of the records of no group, and of the groups, nothing reachable stands for. -/
noncomputable def lost : Nat :=
  countOf plan.ungrouped (fun old => ¬ ∃ n ∈ h.recordSet, trace n (.copy old)) +
    countOf (Finset.range plan.groups.length) fun index =>
      ¬ ∃ n ∈ h.recordSet, trace n (.group index)

/-- How many reachable records stand for several types that are no group. -/
noncomputable def fresh (trace : Trace) (h : Graph) : Nat :=
  countOf h.recordSet fun n => ∃ types, trace n (.merge types)

variable {plan trace h} {conflate : Bool} {target : Target}

theorem length_le_length_flatten {groups : List (List Ref)}
    (nonempty : ∀ group ∈ groups, group ≠ []) : groups.length ≤ groups.flatten.length := by
  induction groups with
  | nil => exact Nat.le_refl _
  | cons group rest ih =>
    have positive := List.length_pos_of_ne_nil (nonempty group List.mem_cons_self)
    have later := ih fun other listed => nonempty other (List.mem_cons_of_mem _ listed)
    rw [List.flatten_cons, List.length_append, List.length_cons]
    omega

/-- The reachable records are those of no group and the members of groups. -/
theorem OfCliques.recordCount_eq (cliques : plan.OfCliques) :
    plan.source.recordCount = plan.ungrouped.card + plan.removed + plan.groups.length := by
  have grouped : plan.source.recordSet.filter (fun old => ¬ plan.groupOf? old = none) =
      plan.groups.flatten.toFinset := by
    ext old
    rw [Finset.mem_filter, List.mem_toFinset, List.mem_flatten, ← ne_eq, Option.ne_none_iff_exists']
    constructor
    · rintro ⟨_, index, found⟩
      obtain ⟨group, listed, inside⟩ := plan.groupOf?_eq_some_iff.1 found
      exact ⟨group, List.mem_of_getElem? listed, inside⟩
    · rintro ⟨group, listed, inside⟩
      obtain ⟨index, bound, at_⟩ := List.getElem_of_mem listed
      have reached := cliques.reachable group listed old inside
      refine ⟨Graph.mem_recordSet.2 ⟨reached, cliques.records group listed old inside⟩, index, ?_⟩
      exact plan.groupOf?_eq_some_iff.2 ⟨group, at_ ▸ List.getElem?_eq_getElem bound, inside⟩
  have members : plan.groups.flatten.toFinset.card = plan.removed + plan.groups.length := by
    rw [List.toFinset_card_of_nodup plan.disjoint, removed]
    exact (Nat.sub_add_cancel (length_le_length_flatten plan.nonempty)).symm
  have split := Finset.card_filter_add_card_filter_not (s := plan.source.recordSet)
    fun old => plan.groupOf? old = none
  rw [grouped, members, Graph.card_recordSet] at split
  rw [← split, ungrouped, Nat.add_assoc]

section Balance

variable (replaces : plan.Replaces conflate target h trace)

include replaces

/-- A record stands for one thing. -/
theorem Replaces.origin_unique {n : Ref} (isRecord : n ∈ h.recordSet) {first second : Origin}
    (one : trace n first) (other : trace n second) : first = second := by
  rcases replaces.shared one other with same | ⟨_, _, p, type⟩
  · exact same
  · have kind := (Graph.mem_recordSet.1 isRecord).2
    rw [h.kind?_of_type? type] at kind
    cases p <;> cases kind

/-- A record that is copied is a reachable one of no group. -/
theorem Replaces.ungrouped_of_copy (cliques : plan.OfCliques) {n old : Ref}
    (isRecord : n ∈ h.recordSet) (traced : trace n (.copy old)) : old ∈ plan.ungrouped := by
  obtain ⟨reached, free⟩ := replaces.known traced
  obtain ⟨node, found, kind⟩ := Option.map_eq_some_iff.1 (Graph.mem_recordSet.1 isRecord).2
  obtain ⟨raw, realises, rfl⟩ := replaces.explains traced found
  rw [target.kind_normalize] at kind
  have kindOld := realises.kind_of_copy
  rw [kind] at kindOld
  exact Finset.mem_filter.2
    ⟨Graph.mem_recordSet.2 ⟨cliques.reachable_of_reached reached, kindOld⟩, free⟩

/-- Records are copies, replacements of groups, or fresh. -/
theorem Replaces.recordCount_eq (cliques : plan.OfCliques) :
    h.recordCount = countOf h.recordSet (fun n => ∃ old ∈ plan.ungrouped, trace n (.copy old)) +
      countOf h.recordSet (fun n =>
        ∃ index ∈ Finset.range plan.groups.length, trace n (.group index)) + fresh trace h := by
  rw [← h.card_recordSet]
  refine card_eq_countOf ?_ ?_ ?_ ?_
  · intro n isRecord
    have inside := h.lt_of_mem_reachable (Graph.mem_recordSet.1 isRecord).1
    obtain ⟨origin, traced⟩ := replaces.traced inside
    cases origin with
    | copy old => exact .inl ⟨old, replaces.ungrouped_of_copy cliques isRecord traced, traced⟩
    | group index => exact .inr (.inl ⟨index, Finset.mem_range.2 (replaces.known traced), traced⟩)
    | merge types => exact .inr (.inr ⟨types, traced⟩)
  · rintro n isRecord ⟨old, _, one⟩ ⟨index, _, other⟩
    cases replaces.origin_unique isRecord one other
  · rintro n isRecord ⟨old, _, one⟩ ⟨types, other⟩
    cases replaces.origin_unique isRecord one other
  · rintro n isRecord ⟨index, _, one⟩ ⟨types, other⟩
    cases replaces.origin_unique isRecord one other

/-- What a round removes and loses, and what it makes, balance. -/
theorem Replaces.recordCount_balance (cliques : plan.OfCliques) :
    h.recordCount + plan.removed + plan.lost trace h =
      plan.source.recordCount + fresh trace h := by
  have copies : countOf h.recordSet (fun n => ∃ old ∈ plan.ungrouped, trace n (.copy old)) =
      countOf plan.ungrouped fun old => ∃ n ∈ h.recordSet, trace n (.copy old) :=
    countOf_related (fun n isRecord a b one other =>
      Origin.copy.inj (replaces.origin_unique isRecord one other))
      fun n m old one other => replaces.unique one other
  have groups : countOf h.recordSet (fun n =>
        ∃ index ∈ Finset.range plan.groups.length, trace n (.group index)) =
      countOf (Finset.range plan.groups.length) fun index =>
        ∃ n ∈ h.recordSet, trace n (.group index) :=
    countOf_related (fun n isRecord a b one other =>
      Origin.group.inj (replaces.origin_unique isRecord one other))
      fun n m index one other => replaces.unique one other
  have kept := countOf_add_not plan.ungrouped fun old => ∃ n ∈ h.recordSet, trace n (.copy old)
  have replaced := countOf_add_not (Finset.range plan.groups.length) fun index =>
    ∃ n ∈ h.recordSet, trace n (.group index)
  have after := replaces.recordCount_eq cliques
  have before := cliques.recordCount_eq
  rw [Finset.card_range] at replaced
  unfold lost
  omega

end Balance

end Plan

namespace Settings

variable {settings : Settings} {registry : Registry} {g h : Graph}

/-! ## Rounds that are compared -/

theorem recordCount_le_of_kept {first : Graph}
    (path : ReflTransGen (settings.KeptRound registry) first h) :
    h.recordCount ≤ first.recordCount := by
  induction path with
  | refl => exact Nat.le_refl _
  | tail _ last ih => exact Nat.le_trans (Nat.le_of_lt last.2) ih

/-- Rounds all of which are compared leave no more records than there were. -/
theorem recordCount_laterRounds {number : Nat}
    (done : (settings.laterRounds registry g number).result = .ok h) :
    h.recordCount ≤ g.recordCount := by
  obtain ⟨other, result, path⟩ := settings.exists_laterRounds registry g number
  rw [result] at done
  cases done
  exact recordCount_le_of_kept path

/-! ## The first round -/

/-- Combining leaves no more records than there were just when the first round, which is not compared,
makes no more fresh records than it merges away and loses and later rounds remove. -/
theorem combine_leaves_no_more_iff (done : (settings.combine registry g).result = .ok h) :
    ∃ (plan : Plan) (first : Graph) (trace : Trace), plan.source = g ∧
      g.similarityCliques settings.search = .ok plan.groups ∧
      (settings.round registry g plan.groups).result = .ok first ∧
      plan.Replaces settings.conflate settings.target first trace ∧
      ReflTransGen (settings.KeptRound registry) first h ∧
      (h.recordCount ≤ g.recordCount ↔ Plan.fresh trace first ≤
        plan.removed + plan.lost trace first + (first.recordCount - h.recordCount)) := by
  obtain ⟨first, round, path⟩ := rounds_of_combine done
  obtain ⟨plan, again, trace, source, searched, cliques, made, replaces⟩ :=
    settings.exists_round registry g
  have same : again = first := by
    obtain ⟨found, searched', made'⟩ := round
    have groups : found = plan.groups := Except.ok.inj (searched'.symm.trans searched)
    rw [groups, made] at made'
    exact Except.ok.inj made'
  subst same
  refine ⟨plan, again, trace, source, searched, made, replaces, path, ?_⟩
  have balance := replaces.recordCount_balance cliques
  have fewer := recordCount_le_of_kept path
  rw [source] at balance
  omega

/-- Two similar records, each property of which has a fixed type of its own in each of them. -/
def twins : Graph :=
  ⟨#[⟨.primitive .string, .empty⟩, .required [("p", 3), ("q", 5)] false,
      .required [("p", 4), ("q", 6)] false, .required [("x", 0)] true, .required [("x", 0)] true,
      .required [("y", 0)] true, .required [("y", 0)] true],
    .ofList [("A", 1), ("B", 2), ("P", 3), ("Q", 4), ("R", 5), ("S", 6)],
    firstFault?_eq_none_iff.1 (by decide +kernel)⟩

/-- What combining makes of them: one record, with a fresh type for each property next to the fixed
ones. -/
def mergedTwins : Graph :=
  ⟨#[.required [("p", 1), ("q", 3)] false, .required [("x", 2)] true, ⟨.primitive .string, .empty⟩,
      .required [("y", 2)] true, .required [("x", 2)] true, .required [("x", 2)] true,
      .required [("y", 2)] true, .required [("y", 2)] true],
    .ofList [("A", 0), ("B", 0), ("P", 4), ("Q", 5), ("R", 6), ("S", 7)],
    firstFault?_eq_none_iff.1 (by decide +kernel)⟩

theorem similarityCliques_mergedTwins :
    mergedTwins.similarityCliques Settings.standard.search = .ok [] := by
  refine mergedTwins.similarityCliques_eq (by cbv) ?_
  rw [Clique.search_cons]
  cbv

theorem similarityCliques_twins :
    twins.similarityCliques Settings.standard.search = .ok [[1, 2]] := by
  refine twins.similarityCliques_eq (by cbv) ?_
  rw [Clique.search_cons]
  cbv

theorem combine_twins : (Settings.standard.combine .standard twins).result = .ok mergedTwins :=
  combine_of_one_round similarityCliques_twins (by cbv) similarityCliques_mergedTwins

theorem recordCount_twins : twins.recordCount = 6 ∧ mergedTwins.recordCount = 7 := by
  constructor
  · cbv
  · cbv

/-- The first round makes two fresh records of the twins and merges one away. -/
theorem fresh_exceeds_twins :
    (Settings.standard.combine .standard twins).result = .ok mergedTwins ∧
      ∃ (plan : Plan) (first : Graph) (trace : Trace), plan.source = twins ∧
        plan.Replaces Settings.standard.conflate Settings.standard.target first trace ∧
        plan.removed + plan.lost trace first + (first.recordCount - mergedTwins.recordCount) <
          Plan.fresh trace first := by
  refine ⟨combine_twins, ?_⟩
  obtain ⟨plan, first, trace, source, _, _, replaces, _, balance⟩ :=
    combine_leaves_no_more_iff combine_twins
  refine ⟨plan, first, trace, source, replaces, ?_⟩
  have more : ¬ mergedTwins.recordCount ≤ twins.recordCount := by
    rw [recordCount_twins.1, recordCount_twins.2]
    decide
  exact Nat.not_le.1 fun few => more (balance.2 few)

/-- Combining may leave more records than there were. -/
theorem combine_leaves_more :
    ¬ ∀ (settings : Settings) (registry : Registry) (g h : Graph), g.UnionsEnd →
      (settings.combine registry g).result = .ok h → h.recordCount ≤ g.recordCount := by
  intro never
  have ends : twins.UnionsEnd := twins.unionsEnd_of_lt (by decide)
  have few := never Settings.standard .standard twins mergedTwins ends combine_twins
  rw [recordCount_twins.1, recordCount_twins.2] at few
  exact absurd few (by decide)

end Settings

end SchemaGraph
