import SchemaGraph.Proofs.Similarity.Partition
/-!
# Proofs.Similarity.Leftover -- what a search leaves apart does not match

A clique compares every candidate that it leaves with its seed (`Clique.unlike_of_left`), and a candidate
that is dropped matched none of those that were left with it. Which candidates a round still compares
depends on the rounds before it: two that no clique took are left by each of them, in their order
(`Clique.left_pair`).

* `Graph.no_match_is_missed`: no record is similar to the first member of a clique that could have taken it
  and did not, nor are two records that are left over. So a search finds nothing just when there is
  nothing to find.
-/

namespace SchemaGraph

set_option autoImplicit false

namespace Clique

variable {g : Graph} {onlySame : Bool} {clique final : Clique} {candidates left : List Candidate}
  {cliques : List (List Ref)} {c d : Candidate}

/-! ## What a clique leaves -/

/-- A candidate that is left does not match the prototypes that the clique had. -/
theorem unlike_of_left (grown : grow g onlySame clique candidates = .ok (final, left))
    {anchor : Candidate} (listed : anchor ∈ clique.prototypes) (out : d ∈ left) :
    Unlike g onlySame anchor d := by
  induction candidates generalizing clique left with
  | nil =>
    cases grown
    cases out
  | cons candidate rest ih =>
    rcases grow_cons grown with ⟨larger, joined, inner⟩ | ⟨passed, others, rfl, inner⟩
    · exact ih inner ((prototypes_of_join? joined).1 anchor listed) out
    · rcases List.mem_cons.1 out with rfl | later
      · exact join?_eq_none_iff.1 passed anchor listed
      · exact ih inner listed later

/-- Two candidates that do not join are left in their order. -/
theorem left_pair (grown : grow g onlySame clique candidates = .ok (final, left))
    (pair : [c, d].Sublist candidates) (outC : c.1 ∉ final.members) (outD : d.1 ∉ final.members) :
    [c, d].Sublist left := by
  induction candidates generalizing clique left with
  | nil => cases pair
  | cons candidate rest ih =>
    rcases grow_cons grown with ⟨larger, joined, inner⟩ | ⟨_, others, rfl, inner⟩
    · cases pair with
      | cons _ later => exact ih inner later
      | cons_cons _ _ =>
        refine absurd ((prefix_grow inner).subset ?_) outC
        rw [(join?_eq_some joined).1]
        exact List.mem_append_right _ List.mem_cons_self
    · cases pair with
      | cons _ later => exact (ih inner later).cons candidate
      | cons_cons _ later =>
        have out := (joined_or_left inner (List.singleton_sublist.1 later)).resolve_left outD
        exact (List.singleton_sublist.2 out).cons_cons c

theorem seed_mem_of_grow {seed : Candidate}
    (grown : grow g onlySame (ofSeed seed) candidates = .ok (clique, left)) :
    seed.1 ∈ clique.members := List.mem_of_mem_head? (head?_of_grow grown)

/-! ## What a search leaves -/

namespace Rounds

/-- Two candidates that no clique took do not match. -/
theorem unlike_of_not_mem (rounds : Rounds g onlySame candidates cliques)
    (pair : [c, d].Sublist candidates) (outC : c.1 ∉ cliques.flatten) (outD : d.1 ∉ cliques.flatten) :
    Unlike g onlySame c d := by
  induction rounds with
  | done => cases pair
  | clique grown _ _ ih =>
    rw [List.flatten_cons, List.mem_append, not_or] at outC outD
    cases pair with
    | cons _ later => exact ih (left_pair grown later outC.1 outD.1) outC.2 outD.2
    | cons_cons _ _ => exact absurd (seed_mem_of_grow grown) outC.1
  | alone unlike _ ih =>
    cases pair with
    | cons _ later => exact ih later outC outD
    | cons_cons _ later => exact unlike d (List.singleton_sublist.1 later)

/-- A later candidate that neither a clique nor one found earlier took does not match its seed. -/
theorem unlike_of_head? (rounds : Rounds g onlySame candidates cliques)
    (distinct : (candidates.map Prod.fst).Nodup) {earlier later : List (List Ref)} {members : List Ref}
    (found : cliques = earlier ++ members :: later) (first : members.head? = some c.1)
    (pair : [c, d].Sublist candidates) (fresh : d.1 ∉ earlier.flatten) (out : d.1 ∉ members) :
    Unlike g onlySame c d := by
  induction rounds generalizing earlier with
  | done => cases pair
  | @clique seed rest left clique others grown _ inner ih =>
    have dealt : (clique.members ++ left.map Prod.fst).Nodup := (grow_perm grown).nodup_iff.2 distinct
    cases earlier with
    | nil =>
      obtain ⟨rfl, rfl⟩ := List.cons.inj found
      have seeded : seed.1 = c.1 := Option.some.inj ((head?_of_grow grown).symm.trans first)
      cases pair with
      | cons _ behind =>
        have twice : seed.1 ∈ rest.map Prod.fst :=
          List.mem_map.2 ⟨c, behind.subset List.mem_cons_self, seeded.symm⟩
        exact absurd twice (List.nodup_cons.1 distinct).1
      | cons_cons _ behind =>
        have left := (joined_or_left grown (List.singleton_sublist.1 behind)).resolve_left out
        exact unlike_of_left grown List.mem_cons_self left
    | cons skipped earlier =>
      obtain ⟨rfl, rfl⟩ := List.cons.inj found
      rw [List.flatten_cons, List.mem_append, not_or] at fresh
      -- the seed of a later clique was left by this one
      have inLeft : c.1 ∈ left.map Prod.fst :=
        (inner.sublist members (by simp)).subset (List.mem_of_mem_head? first)
      have outC : c.1 ∉ clique.members := fun early => List.disjoint_of_nodup_append dealt early inLeft
      cases pair with
      | cons _ behind =>
        exact ih (List.nodup_append.1 dealt).2.1 rfl (left_pair grown behind outC fresh.1) fresh.2
      | cons_cons _ _ => exact absurd (seed_mem_of_grow grown) outC
  | alone unlike _ ih =>
    cases pair with
    | cons _ behind => exact ih (List.nodup_cons.1 distinct).2 found behind fresh
    | cons_cons _ behind => exact unlike d (List.singleton_sublist.1 behind)

end Rounds

end Clique

namespace Graph

variable {g : Graph}

/-- A search succeeds and misses nothing: a record that is visited after the first member of a clique, and
is neither in it nor in one found earlier, is not similar to that member; of two records that no clique
has, the later one is not similar to the earlier one; and there is no clique just when no eligible record
is similar to one visited before it. -/
theorem no_match_is_missed (g : Graph) (options : SearchOptions) :
    ∃ cliques, g.similarityCliques options = .ok cliques ∧
      (∀ earlier members later a b, cliques = earlier ++ members :: later →
        members.head? = some a → g.Eligible options b → [a, b].Sublist g.reachable →
        b ∉ earlier.flatten → b ∉ members → ¬ g.Similar options.onlySame a b) ∧
      (∀ a b, g.Eligible options a → g.Eligible options b → [a, b].Sublist g.reachable →
        a ∉ cliques.flatten → b ∉ cliques.flatten → ¬ g.Similar options.onlySame a b) ∧
      (cliques = [] ↔ ∀ a b, g.Eligible options a → g.Eligible options b →
        [a, b].Sublist g.reachable → ¬ g.Similar options.onlySame a b) := by
  obtain ⟨candidates, cliques, found, rounds, order, records, all⟩ := g.exists_rounds options
  refine ⟨cliques, found, ?_, ?_, ?_⟩
  · intro earlier members later a b split first second before fresh out
    have inside : a ∈ members := List.mem_of_mem_head? first
    have eligible := g.eligible_of_mem_clique found (by simp [split]) inside
    obtain ⟨c, inC, rfl⟩ := List.mem_map.1 (all a eligible)
    obtain ⟨d, inD, rfl⟩ := List.mem_map.1 (all b second)
    have distinct := order.nodup g.nodup_reachable
    refine (unlike_iff (records c inC) (records d inD)).1 ?_
    exact rounds.unlike_of_head? distinct split first (pair_of_order order inC inD before) fresh out
  · intro a b first second before outA outB
    obtain ⟨c, inC, rfl⟩ := List.mem_map.1 (all a first)
    obtain ⟨d, inD, rfl⟩ := List.mem_map.1 (all b second)
    refine (unlike_iff (records c inC) (records d inD)).1 ?_
    exact rounds.unlike_of_not_mem (pair_of_order order inC inD before) outA outB
  · rw [← similarityCliques_eq_nil_iff, found, Except.ok.injEq]

/-- In the graph of four records the second is left over, for it is not similar to the seed of the clique of
the others. -/
theorem overtaken_misses_none : overtaken.similarityCliques ⟨false, false⟩ = .ok [[1, 3, 4]] ∧
    ¬ overtaken.Similar false 1 2 := by
  refine ⟨similarityCliques_overtaken, ?_⟩
  obtain ⟨cliques, found, seeds, _⟩ := no_match_is_missed overtaken ⟨false, false⟩
  cases similarityCliques_overtaken.symm.trans found
  have reached : overtaken.reachable = [1, 0, 2, 3, 4] := by cbv
  have before : [1, 2].Sublist overtaken.reachable := by
    rw [reached]
    decide
  exact seeds [] [1, 3, 4] [] 1 2 rfl rfl eligible_overtaken.1 before (by decide) (by decide)

end Graph

end SchemaGraph
