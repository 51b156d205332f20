import SchemaGraph.Proofs.Similarity.Overlap
/-!
# Proofs.Similarity.Partition -- what a search makes of the records it compares

A search goes in rounds (`Clique.Rounds`): the first candidate left either takes others in, or matches
none of them and is dropped. A candidate joins by a prototype, and prototypes are members, so whatever
joins is similar to an earlier member (`Clique.Anchored.grow`). Similar records may differ in size, and
similarity is not transitive; only where sizes must be equal do all members have one.

* `Graph.cliques_are_linked`: the search deals eligible records into disjoint cliques, in the order in
  which they are reached.
-/

namespace SchemaGraph

set_option autoImplicit false

namespace Graph

variable {g : Graph} {onlySame : Bool} {a b : Ref}

/-! ## Similar records have comparable sizes -/

/-- The number of properties of a record. -/
def width? (g : Graph) (r : Ref) : Option Nat := (g.record? r).map Record.size

theorem width?_of_record? {record : Record} (found : g.record? a = some record) :
    g.width? a = some record.size := by
  rw [width?, found]
  rfl

/-- Records of one shape have the same number of properties. -/
theorem width?_of_sameShape {k l : Record} (foundK : g.record? a = some k)
    (foundL : g.record? b = some l) (same : g.sameShape false a b = true) :
    g.width? a = g.width? b := by
  rw [width?_of_record? foundK, width?_of_record? foundL]
  exact congrArg some
    (size_of_sameShape (g.record?_eq_some_iff.1 foundK) (g.record?_eq_some_iff.1 foundL) same)

/-- Where sizes must be equal, similar records have equal ones. -/
theorem Similar.width? {k l : Record} (foundK : g.record? a = some k) (foundL : g.record? b = some l)
    (similar : g.Similar true a b) : g.width? a = g.width? b := by
  rcases similar with same | ⟨k', l', foundK', foundL', combines⟩
  · exact width?_of_sameShape foundK foundL same
  · have equal : k'.size = l'.size := by
      have sizes := (canCombine_iff.1 combines).1
      simpa [sizesDiffer] using sizes
    rw [width?_of_record? foundK', width?_of_record? foundL', equal]

/-- Every member but the first comes after one that it is similar to. -/
def Linked (g : Graph) (onlySame : Bool) (members : List Ref) : Prop :=
  ∀ m ∈ members.tail, ∃ p, [p, m].Sublist members ∧ g.Similar onlySame p m

/-- A member that is similar to an earlier one may follow. -/
theorem Linked.concat {members : List Ref} (linked : g.Linked onlySame members) {p m : Ref}
    (inside : p ∈ members) (similar : g.Similar onlySame p m) :
    g.Linked onlySame (members ++ [m]) := by
  intro r later
  rw [List.tail_append_of_ne_nil (List.ne_nil_of_mem inside)] at later
  rcases List.mem_append.1 later with before | last
  · obtain ⟨q, order, related⟩ := linked r before
    exact ⟨q, order.trans (List.sublist_append_left _ _), related⟩
  · rw [List.mem_singleton.1 last]
    exact ⟨p, (List.singleton_sublist.2 inside).append (.refl _), similar⟩

end Graph

namespace Clique

variable {g : Graph} {onlySame : Bool} {clique final : Clique} {candidates left : List Candidate}

/-! ## A clique that grows -/

/-- The prototypes are members with their records, the members are linked, and if sizes must be equal
they are. -/
structure Anchored (g : Graph) (onlySame : Bool) (clique : Clique) : Prop where
  inside : ∀ anchor ∈ clique.prototypes, anchor.1 ∈ clique.members
  records : ∀ anchor ∈ clique.prototypes, g.record? anchor.1 = some anchor.2
  linked : g.Linked onlySame clique.members
  level : onlySame = true → ∀ a ∈ clique.members, ∀ b ∈ clique.members, g.width? a = g.width? b

theorem anchored_ofSeed {seed : Candidate} (record : g.record? seed.1 = some seed.2) :
    Anchored g onlySame (ofSeed seed) where
  inside anchor listed := by
    rw [List.mem_singleton.1 listed]
    exact List.mem_cons_self
  records anchor listed := by
    rw [List.mem_singleton.1 listed]
    exact record
  linked := fun m later => by cases later
  level := by
    rintro - a (_ | ⟨_, ⟨⟩⟩) b (_ | ⟨_, ⟨⟩⟩)
    rfl

/-- A candidate joins by a prototype that it is similar to. -/
theorem exists_similar_of_join? {larger : Clique} {candidate : Candidate}
    (records : ∀ anchor ∈ clique.prototypes, g.record? anchor.1 = some anchor.2)
    (record : g.record? candidate.1 = some candidate.2)
    (joined : join? g onlySame clique candidate = .ok (some larger)) :
    ∃ anchor ∈ clique.prototypes, g.Similar onlySame anchor.1 candidate.1 := by
  rcases (join?_eq_some joined).2 with ⟨anchor, listed, same, _⟩ | ⟨anchor, listed, combines, _⟩
  · exact ⟨anchor, listed, .inl same⟩
  · exact ⟨anchor, listed, .inr ⟨_, _, records anchor listed, record, combines⟩⟩

theorem Anchored.join (anchored : Anchored g onlySame clique) {larger : Clique} {candidate : Candidate}
    (record : g.record? candidate.1 = some candidate.2)
    (joined : join? g onlySame clique candidate = .ok (some larger)) : Anchored g onlySame larger := by
  have members := (join?_eq_some joined).1
  obtain ⟨anchor, listed, similar⟩ := exists_similar_of_join? anchored.records record joined
  have inside := anchored.inside anchor listed
  have source := (prototypes_of_join? joined).2
  refine ⟨inside_of_join? anchored.inside joined, fun other inLarger => ?_, ?_, fun equal => ?_⟩
  · rcases source other inLarger with old | rfl
    · exact anchored.records other old
    · exact record
  · rw [members]
    exact anchored.linked.concat inside similar
  · subst equal
    have here := similar.width? (anchored.records anchor listed) record
    -- every member is as large as the prototype by which the candidate joined
    have each : ∀ m ∈ larger.members, g.width? m = g.width? anchor.1 := by
      intro m inLarger
      rw [members] at inLarger
      rcases List.mem_append.1 inLarger with old | last
      · exact anchored.level rfl m old anchor.1 inside
      · rw [List.mem_singleton.1 last]
        exact here.symm
    exact fun a inA b inB => (each a inA).trans (each b inB).symm

theorem Anchored.grow (anchored : Anchored g onlySame clique)
    (records : ∀ candidate ∈ candidates, g.record? candidate.1 = some candidate.2)
    (grown : grow g onlySame clique candidates = .ok (final, left)) : Anchored g onlySame final := by
  induction candidates generalizing clique left with
  | nil =>
    cases grown
    exact anchored
  | cons candidate rest ih =>
    have later : ∀ other ∈ rest, g.record? other.1 = some other.2 :=
      fun other listed => records other (List.mem_cons_of_mem _ listed)
    rcases grow_cons grown with ⟨larger, joined, inner⟩ | ⟨_, others, rfl, inner⟩
    · exact ih (anchored.join (records candidate List.mem_cons_self) joined) later inner
    · exact ih anchored later inner

/-- Members join in the order of their turns. -/
theorem members_sublist (grown : grow g onlySame clique candidates = .ok (final, left)) :
    final.members.Sublist (clique.members ++ candidates.map Prod.fst) := by
  induction candidates generalizing clique left with
  | nil =>
    cases grown
    exact List.sublist_append_left _ _
  | cons candidate rest ih =>
    rcases grow_cons grown with ⟨larger, joined, inner⟩ | ⟨_, others, rfl, inner⟩
    · have sub := ih inner
      rw [(join?_eq_some joined).1, List.append_assoc] at sub
      exact sub
    · exact (ih inner).trans ((List.sublist_cons_self _ _).append_left _)

/-! ## The rounds of a search -/

/-- A search that found the cliques among the candidates. In each round the first candidate seeds a
clique: others join it, and the search goes on with those that are left, or it matches none of them and
is dropped. -/
inductive Rounds (g : Graph) (onlySame : Bool) : List Candidate → List (List Ref) → Prop
  | done : Rounds g onlySame [] []
  | clique {seed : Candidate} {rest left : List Candidate} {clique : Clique} {others : List (List Ref)} :
      grow g onlySame (ofSeed seed) rest = .ok (clique, left) → 1 < clique.members.length →
      Rounds g onlySame left others → Rounds g onlySame (seed :: rest) (clique.members :: others)
  | alone {seed : Candidate} {rest : List Candidate} {others : List (List Ref)} :
      (∀ candidate ∈ rest, Unlike g onlySame seed candidate) →
      Rounds g onlySame rest others → Rounds g onlySame (seed :: rest) others

variable {cliques : List (List Ref)}

theorem rounds_of_search (found : search g onlySame candidates = .ok cliques) :
    Rounds g onlySame candidates cliques := by
  fun_induction search g onlySame candidates generalizing cliques with
  | case1 =>
    cases found
    exact .done
  | case2 => cases found
  | case3 seed rest clique left grown ih =>
    obtain ⟨others, searched, rfl⟩ := others_of_search found
    split
    · rename_i several
      exact .clique grown several (ih searched)
    · rename_i single
      obtain ⟨rfl, unlike⟩ := unlike_of_grow grown (Nat.not_lt.1 single)
      exact .alone (unlike seed List.mem_cons_self) (ih searched)

namespace Rounds

theorem sublist (rounds : Rounds g onlySame candidates cliques) :
    ∀ members ∈ cliques, members.Sublist (candidates.map Prod.fst) := by
  induction rounds with
  | done => exact fun _ listed => by cases listed
  | @clique seed rest left clique others grown _ _ ih =>
    have later : ∀ members ∈ others, members.Sublist ((seed :: rest).map Prod.fst) :=
      fun members listed => (ih members listed).trans (((left_sublist grown).cons seed).map _)
    exact List.forall_mem_cons.2 ⟨members_sublist grown, later⟩
  | @alone seed rest others _ _ ih =>
    exact fun members listed => (ih members listed).trans (((List.Sublist.refl rest).cons seed).map _)

/-- Cliques are found in the order of their first members. -/
theorem heads_sublist (rounds : Rounds g onlySame candidates cliques) :
    (cliques.filterMap List.head?).Sublist (candidates.map Prod.fst) := by
  induction rounds with
  | done => exact .slnil
  | @clique seed rest left clique others grown _ _ ih =>
    rw [List.filterMap_cons_some (head?_of_grow grown), List.map_cons]
    exact (ih.trans ((left_sublist grown).map _)).cons_cons seed.1
  | @alone seed rest others _ _ ih =>
    exact ih.cons seed.1

theorem anchored (rounds : Rounds g onlySame candidates cliques)
    (records : ∀ candidate ∈ candidates, g.record? candidate.1 = some candidate.2) :
    ∀ members ∈ cliques, ∃ clique, Anchored g onlySame clique ∧ clique.members = members := by
  induction rounds with
  | done => exact fun _ listed => by cases listed
  | clique grown _ _ ih =>
    obtain ⟨record, later⟩ := List.forall_mem_cons.1 records
    refine List.forall_mem_cons.2 ⟨⟨_, (anchored_ofSeed record).grow later grown, rfl⟩, ?_⟩
    exact ih fun candidate listed => later candidate ((left_sublist grown).subset listed)
  | alone _ _ ih => exact ih (List.forall_mem_cons.1 records).2

end Rounds

end Clique

namespace Graph

/-! ## What a search finds -/

/-- At least two eligible records, in the order in which they are reached, each but the first similar to
an earlier one, and all of one size if only such may be merged. -/
structure SimilarityClique (g : Graph) (options : SearchOptions) (members : List Ref) : Prop where
  several : 1 < members.length
  order : members.Sublist g.reachable
  eligible : ∀ r ∈ members, g.Eligible options r
  linked : g.Linked options.onlySame members
  level : options.onlySame = true → ∀ a ∈ members, ∀ b ∈ members, g.width? a = g.width? b

/-- The candidates of a search, in the order in which they are reached, and its rounds. -/
theorem exists_rounds (g : Graph) (options : SearchOptions) :
    ∃ candidates cliques, g.similarityCliques options = .ok cliques ∧
      Clique.Rounds g options.onlySame candidates cliques ∧
      (candidates.map Prod.fst).Sublist g.reachable ∧
      (∀ entry ∈ candidates, g.record? entry.1 = some entry.2) ∧
      ∀ r, g.Eligible options r → r ∈ candidates.map Prod.fst := by
  obtain ⟨candidates, listed, sub, types, all⟩ := g.candidates_spec options
  obtain ⟨cliques, searched⟩ := Clique.exists_search g options.onlySame candidates
  refine ⟨candidates, cliques, g.similarityCliques_eq listed searched,
    Clique.rounds_of_search searched, sub.trans List.filter_sublist, ?_, all⟩
  exact fun entry member => g.record?_eq_some_iff.2 (types entry member)

/-- A search succeeds. It finds disjoint cliques in the order of their first members, each a linked group
of eligible records. -/
theorem cliques_are_linked (g : Graph) (options : SearchOptions) :
    ∃ cliques, g.similarityCliques options = .ok cliques ∧ cliques.flatten.Nodup ∧
      (cliques.filterMap List.head?).Sublist g.reachable ∧
      ∀ members ∈ cliques, g.SimilarityClique options members := by
  obtain ⟨candidates, cliques, found, rounds, order, records, _⟩ := g.exists_rounds options
  obtain ⟨cliques', found', distinct, several, _⟩ := g.similarityCliques_spec options
  cases found.symm.trans found'
  refine ⟨cliques, found, distinct, rounds.heads_sublist.trans order, fun members listed => ?_⟩
  obtain ⟨clique, anchored, rfl⟩ := rounds.anchored records members listed
  exact ⟨several _ listed, (rounds.sublist _ listed).trans order,
    fun r inside => g.eligible_of_mem_clique found listed inside, anchored.linked, anchored.level⟩

end Graph

end SchemaGraph
