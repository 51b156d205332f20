import SchemaGraph.Proofs.Graph.Renumbering
/-!
# Proofs.Similarity.Renumbering -- the search for cliques does not see the numbers of nodes

Every comparison that the search makes has the same outcome on the images of what it compares
(`Graph.Renumbers.caseSetsMatch_image`, `Graph.Renumbers.canCombine_image`), and the candidates come in the
same order. So each turn of the search deals the image of a candidate where it deals the candidate
(`Clique.grow_image`), and the cliques of a renumbered graph are the images of the cliques, in the same
order (`Graph.Renumbers.similarityCliques_image`).
-/

namespace SchemaGraph

set_option autoImplicit false

namespace Graph

namespace Renumbers

variable {g g' : Graph} {image : Ref → Ref} (renumbers : g.Renumbers g' image)

include renumbers

/-! ## Sets of cases -/

theorem lastOfKind?_image {refs : List Ref} (inside : refs ⊆ g.reachable) (kind : Kind) :
    g'.lastOfKind? kind (refs.map image) = (g.lastOfKind? kind refs).map image := by
  have same : ∀ r ∈ refs.reverse, decide (g'.kind? (image r) = some kind) = decide (g.kind? r = some kind) := by
    intro r listed
    rw [renumbers.kind?_image (inside (List.mem_reverse.1 listed))]
  rw [lastOfKind?, ← List.map_reverse, List.find?_map, lastOfKind?]
  congr 1
  exact List.find?_congr same

theorem memberPair?_image {others : List Ref} (inside : others ⊆ g.reachable) {m : Ref}
    (reached : m ∈ g.reachable) : g'.memberPair? false (others.map image) (image m) =
      (g.memberPair? false others m).map fun pair => (image pair.1, image pair.2) := by
  unfold memberPair? counterpart?
  rw [renumbers.kind?_image reached]
  cases g.kind? m with
  | none => rfl
  | some kind =>
    simp only [Option.bind_eq_bind, Option.bind_some, renumbers.lastOfKind?_image inside]
    cases g.lastOfKind? kind others <;> rfl

theorem caseMatches_image {others : OrderedSet Ref} (inside : others.toList ⊆ g.reachable) {r : Ref}
    (reached : r ∈ g.reachable) : g'.caseMatches (others.map image) (image r) = g.caseMatches others r := by
  unfold caseMatches
  rw [renumbers.toList_map inside, renumbers.memberPair?_image inside reached]
  cases found : g.memberPair? false others.toList r with
  | none => rfl
  | some pair =>
    obtain ⟨first, listed, _⟩ := g.memberPair?_eq_some found
    exact renumbers.sameShape_image (first ▸ reached) (inside listed)

theorem caseSetsMatch_image {s t : OrderedSet Ref} (insideS : s.toList ⊆ g.reachable)
    (insideT : t.toList ⊆ g.reachable) :
    g'.caseSetsMatch (s.map image) (t.map image) = g.caseSetsMatch s t := by
  unfold caseSetsMatch OrderedSet.size
  rw [renumbers.toList_map insideS, renumbers.toList_map insideT, List.length_map, List.length_map,
    List.all_map]
  congr 1
  rw [Bool.eq_iff_iff, List.all_eq_true, List.all_eq_true]
  refine forall₂_congr fun r member => ?_
  rw [Function.comp_apply, renumbers.caseMatches_image insideT (insideS member)]

/-! ## Records -/

theorem propertyMatches_image {a b : Record} (insideA : (Ty.record a).children ⊆ g.reachable)
    (insideB : (Ty.record b).children ⊆ g.reachable) (name : String) :
    g'.propertyMatches (a.relocate image) (b.relocate image) name = g.propertyMatches a b name := by
  unfold propertyMatches
  rw [a.property?_relocate, b.property?_relocate]
  cases foundP : a.property? name with
  | none => rfl
  | some p =>
    cases foundQ : b.property? name with
    | none => rfl
    | some q =>
      have reachedP := insideA (Ty.mem_children_of_property? foundP)
      have reachedQ := insideB (Ty.mem_children_of_property? foundQ)
      simp only [Option.map_some, Property.relocate, renumbers.cases_image reachedP,
        renumbers.cases_image reachedQ, OrderedSet.isEmpty,
        renumbers.toList_map (g.cases_subset reachedP), renumbers.toList_map (g.cases_subset reachedQ),
        renumbers.caseSetsMatch_image (g.cases_subset reachedP) (g.cases_subset reachedQ), List.isEmpty_map]

theorem propertiesMatch_image {a b : Record} (insideA : (Ty.record a).children ⊆ g.reachable)
    (insideB : (Ty.record b).children ⊆ g.reachable) (names : List String) :
    g'.propertiesMatch (a.relocate image) (b.relocate image) names = g.propertiesMatch a b names := by
  induction names with
  | nil => rfl
  | cons name rest ih =>
    rw [propertiesMatch, renumbers.propertyMatches_image insideA insideB, ih, propertiesMatch]

theorem canCombine_image {onlySame : Bool} {a b : Record} (insideA : (Ty.record a).children ⊆ g.reachable)
    (insideB : (Ty.record b).children ⊆ g.reachable) :
    g'.canCombine onlySame (a.relocate image) (b.relocate image) = g.canCombine onlySame a b := by
  have contains : ∀ record : Record,
      (record.relocate image).properties.contains = record.properties.contains := by
    intro record
    funext name
    have property := record.property?_relocate image name
    unfold Record.property? at property
    rw [OrderedMap.contains, property, OrderedMap.contains, Option.isSome_map]
  have budget : ∀ smaller larger : Record,
      faultBudget (smaller.relocate image) (larger.relocate image) = faultBudget smaller larger := by
    intro smaller larger
    simp only [faultBudget, Record.size_relocate]
  rw [canCombine_eq, canCombine_eq]
  simp only [Record.size_relocate]
  split
  · rfl
  · split
    · simp only [Record.size_relocate, Record.keys_relocate, contains, budget,
        renumbers.propertiesMatch_image insideA insideB]
    · simp only [Record.size_relocate, Record.keys_relocate, contains, budget,
        renumbers.propertiesMatch_image insideA insideB]

end Renumbers

end Graph

/-! ## Growing cliques -/

/-- The image of a candidate. -/
def Candidate.relocate (image : Ref → Ref) (candidate : Candidate) : Candidate :=
  (image candidate.1, candidate.2.relocate image)

/-- A candidate that is reached, with what its properties are of. -/
def Graph.Reaches (g : Graph) (candidate : Candidate) : Prop :=
  candidate.1 ∈ g.reachable ∧ (Ty.record candidate.2).children ⊆ g.reachable

namespace Clique

/-- The clique of the images. -/
def relocate (image : Ref → Ref) (clique : Clique) : Clique :=
  ⟨clique.members.map image, clique.prototypes.map (Candidate.relocate image)⟩

variable {g g' : Graph} {image : Ref → Ref} (renumbers : g.Renumbers g' image) {onlySame : Bool}

include renumbers

theorem fuzzyMatch_image {candidate : Candidate} {prototypes : List Candidate}
    (reached : g.Reaches candidate) (all : ∀ anchor ∈ prototypes, g.Reaches anchor) :
    fuzzyMatch g' onlySame (candidate.relocate image) (prototypes.map (Candidate.relocate image)) =
      fuzzyMatch g onlySame candidate prototypes := by
  induction prototypes with
  | nil => rfl
  | cons anchor rest ih =>
    have same : g'.canCombine onlySame (anchor.relocate image).2 (candidate.relocate image).2 =
        g.canCombine onlySame anchor.2 candidate.2 :=
      renumbers.canCombine_image (all anchor List.mem_cons_self).2 reached.2
    rw [List.map_cons, fuzzyMatch, same, ih fun other later => all other (List.mem_cons_of_mem _ later),
      fuzzyMatch]

theorem join?_image {clique : Clique} {candidate : Candidate} (reached : g.Reaches candidate)
    (all : ∀ anchor ∈ clique.prototypes, g.Reaches anchor) :
    join? g' onlySame (clique.relocate image) (candidate.relocate image) =
      (join? g onlySame clique candidate).map (Option.map (relocate image)) := by
  have alike : ((clique.relocate image).prototypes.any fun anchor =>
      g'.sameShape false anchor.1 (candidate.relocate image).1) =
      clique.prototypes.any fun anchor => g.sameShape false anchor.1 candidate.1 := by
    unfold relocate
    rw [List.any_map, Bool.eq_iff_iff, List.any_eq_true, List.any_eq_true]
    refine exists_congr fun anchor => and_congr_right fun listed => ?_
    exact Eq.congr_left (renumbers.sameShape_image (all anchor listed).1 reached.1)
  unfold join?
  rw [alike]
  split
  · simp [Except.map, relocate, Candidate.relocate]
  · obtain ⟨answer, found⟩ := exists_fuzzyMatch g onlySame candidate clique.prototypes
    have found' := (fuzzyMatch_image renumbers reached all).trans found
    unfold relocate
    simp only
    rw [found, found']
    cases answer with
    | true => simp [Candidate.relocate, bind, Except.bind, Except.map]
    | false => rfl

/-- Each turn deals the image of a candidate where it deals the candidate. -/
theorem grow_image {clique : Clique} {candidates : List Candidate}
    (reached : ∀ candidate ∈ candidates, g.Reaches candidate)
    (all : ∀ anchor ∈ clique.prototypes, g.Reaches anchor) :
    grow g' onlySame (clique.relocate image) (candidates.map (Candidate.relocate image)) =
      (grow g onlySame clique candidates).map fun dealt =>
        (dealt.1.relocate image, dealt.2.map (Candidate.relocate image)) := by
  induction candidates generalizing clique with
  | nil => rfl
  | cons candidate rest ih =>
    have here := reached candidate List.mem_cons_self
    have later := fun other listed => reached other (List.mem_cons_of_mem candidate listed)
    obtain ⟨larger?, joined⟩ := exists_join? g onlySame clique candidate
    rw [List.map_cons, grow, join?_image renumbers here all, joined, grow, joined]
    cases larger? with
    | some larger =>
      refine ih later fun anchor listed => ?_
      rcases (join?_eq_some joined).2 with ⟨_, _, _, same⟩ | ⟨_, _, _, more⟩
      · exact all anchor (same ▸ listed)
      · rw [more, List.mem_append, List.mem_singleton] at listed
        rcases listed with old | rfl
        · exact all anchor old
        · exact here
    | none =>
      obtain ⟨final, left, grown⟩ := exists_grow g onlySame clique rest
      have grown' := ih later all
      rw [grown] at grown'
      simp only [Except.map, Option.map_none] at grown' ⊢
      rw [grown', grown]
      rfl

theorem search_image {candidates : List Candidate}
    (reached : ∀ candidate ∈ candidates, g.Reaches candidate) :
    search g' onlySame (candidates.map (Candidate.relocate image)) =
      (search g onlySame candidates).map (List.map (List.map image)) := by
  fun_induction search g onlySame candidates with
  | case1 => rw [List.map_nil, search]; rfl
  | case2 seed rest fault grown =>
    obtain ⟨final, left, found⟩ := exists_grow g onlySame (ofSeed seed) rest
    rw [found] at grown
    cases grown
  | case3 seed rest clique left grown ih =>
    have later := fun other listed => reached other (List.mem_cons_of_mem seed listed)
    have single : ∀ anchor ∈ (ofSeed seed).prototypes, g.Reaches anchor := by
      intro anchor listed
      cases List.mem_singleton.1 listed
      exact reached seed List.mem_cons_self
    have grown' : grow g' onlySame (ofSeed (seed.relocate image)) (rest.map (Candidate.relocate image)) =
        .ok (clique.relocate image, left.map (Candidate.relocate image)) := by
      have dealt := congrArg (Except.map fun dealt : Clique × List Candidate =>
        (dealt.1.relocate image, dealt.2.map (Candidate.relocate image))) grown
      exact (grow_image renumbers later single).trans dealt
    obtain ⟨others, searched⟩ := exists_search g onlySame left
    have searched' := ih fun other listed => later other ((left_sublist grown).subset listed)
    rw [searched] at searched' ⊢
    refine search_of_grow grown' searched' ?_
    simp only [relocate, List.length_map]
    split <;> rfl

end Clique

namespace Graph

namespace Renumbers

variable {g g' : Graph} {image : Ref → Ref} (renumbers : g.Renumbers g' image)

include renumbers

theorem reachableOf_eq (kind : Kind) : g'.reachableOf kind = (g.reachableOf kind).map image := by
  rw [reachableOf, renumbers.reachable_eq, List.filter_map, reachableOf]
  congr 1
  refine List.filter_congr fun r reached => ?_
  simp [renumbers.kind?_image reached]

theorem mapM_candidate_image {refs : List Ref} (listed : ∀ r ∈ refs, r ∈ g.reachableOf .record) :
    (refs.map image).mapM g'.candidate = (refs.mapM g.candidate).map (List.map (Candidate.relocate image)) := by
  induction refs with
  | nil => rfl
  | cons r rest ih =>
    have inRest := fun s later => listed s (List.mem_cons_of_mem r later)
    obtain ⟨record, type, found⟩ := g.exists_candidate (listed r List.mem_cons_self)
    obtain ⟨records, later, _⟩ := g.exists_mapM_candidate inRest
    have reached := (g.mem_reachableOf.1 (listed r List.mem_cons_self)).1
    have found' : g'.candidate (image r) = .ok (Candidate.relocate image (r, record)) := by
      rw [candidate, renumbers.record?_image reached, g.record?_eq_some_iff.2 type]
      rfl
    have later' := ih inRest
    rw [later] at later'
    rw [List.map_cons, List.mapM_cons, found', later', List.mapM_cons, found, later]
    rfl

theorem candidates_image (options : SearchOptions) :
    g'.candidates options = (g.candidates options).map (List.map (Candidate.relocate image)) := by
  obtain ⟨records, found, _⟩ := g.exists_mapM_candidate fun r (listed : r ∈ g.reachableOf .record) => listed
  have found' := renumbers.mapM_candidate_image fun r (listed : r ∈ g.reachableOf .record) => listed
  rw [found] at found'
  rw [candidates, renumbers.reachableOf_eq, found', candidates, found]
  exact congrArg Except.ok List.filter_map

/-- A renumbered graph has the images of the cliques, in the same order. -/
theorem similarityCliques_image (options : SearchOptions) :
    g'.similarityCliques options = (g.similarityCliques options).map (List.map (List.map image)) := by
  obtain ⟨candidates, listed, sub, types, _⟩ := g.candidates_spec options
  have listed' := renumbers.candidates_image options
  rw [listed] at listed'
  rw [similarityCliques, listed', similarityCliques, listed]
  refine Clique.search_image renumbers fun candidate member => ?_
  have reached := (g.mem_reachableOf.1 (sub.subset (List.mem_map_of_mem member))).1
  exact ⟨reached, g.children_subset reached (types candidate member)⟩

end Renumbers

end Graph

end SchemaGraph
