import Mathlib.Data.List.Perm.Basic
import SchemaGraph.Proofs.Graph.Walk
import SchemaGraph.Proofs.Merge.Constituents
import SchemaGraph.Similarity.Clique
/-!
# Proofs.Similarity.Search -- the search for cliques succeeds, and finds disjoint ones

Records that pass the test of their sizes leave the smaller one a budget, and a shared property is a
property of both, so comparing records never fails (`Graph.exists_canCombine`). The search then
never fails either, and deals every candidate out once, to a clique or to what is left over
(`Clique.search_perm`). So the cliques are disjoint groups of reachable records: what a plan needs
(`Graph.similarityCliques_spec`).
-/

namespace SchemaGraph

set_option autoImplicit false

namespace Graph

variable (g : Graph) (onlySame : Bool)

/-! ## Comparing records -/

theorem close_of_sizesDiffer {m n : Nat} (sizes : sizesDiffer onlySame m n = false) :
    3 * n ≤ 4 * m ∧ 3 * m ≤ 4 * n := by
  unfold sizesDiffer at sizes
  split at sizes
  · have same : m = n := by simpa using sizes
    omega
  · simp only [Bool.or_eq_false_iff, decide_eq_false_iff_not] at sizes
    omega

/-- Records of sizes that do not differ too much leave the smaller one a budget. -/
theorem exists_faultBudget {smaller larger : Record} (close : 3 * larger.size ≤ 4 * smaller.size) :
    ∃ budget, faultBudget smaller larger = .ok budget := by
  have enough : ¬ smaller.size < requiredOverlap larger.size := by
    unfold requiredOverlap
    omega
  exact ⟨_, by rw [faultBudget, if_neg enough]⟩

theorem exists_propertiesMatch {a b : Record} {names : List String}
    (shared : ∀ name ∈ names, name ∈ a.properties.keys ∧ name ∈ b.properties.keys) :
    ∃ answer, g.propertiesMatch a b names = .ok answer := by
  induction names with
  | nil => exact ⟨true, rfl⟩
  | cons name rest ih =>
    obtain ⟨inA, inB⟩ := shared name List.mem_cons_self
    obtain ⟨p, foundP⟩ := Option.isSome_iff_exists.1 (OrderedMap.isSome_get?_iff.2 inA)
    obtain ⟨q, foundQ⟩ := Option.isSome_iff_exists.1 (OrderedMap.isSome_get?_iff.2 inB)
    obtain ⟨answer, later⟩ := ih fun other listed => shared other (List.mem_cons_of_mem _ listed)
    have here : ∃ here, g.propertyMatches a b name = .ok here := by
      unfold propertyMatches Record.property?
      rw [foundP, foundQ]
      exact ⟨_, rfl⟩
    obtain ⟨here, matched⟩ := here
    rw [propertiesMatch, matched]
    cases here with
    | true => exact ⟨answer, later⟩
    | false => exact ⟨false, rfl⟩

/-- The scan for shared names ends early just when more names are missing than the budget allows. -/
theorem sharedWithin_eq {larger : Record} {budget faults : Nat} {names : List String}
    (within : faults ≤ budget) : sharedWithin larger budget faults names =
      if budget < faults + (names.filter fun name => !larger.properties.contains name).length then none
      else some (names.filter larger.properties.contains) := by
  induction names generalizing faults with
  | nil => simp [sharedWithin, Nat.not_lt.2 within]
  | cons name rest ih =>
    rw [sharedWithin]
    by_cases shared : larger.properties.contains name = true
    · rw [if_pos shared, ih within, List.filter_cons_of_neg (by simp [shared]),
        List.filter_cons_of_pos shared]
      split
      · rfl
      · rfl
    · rw [if_neg shared, List.filter_cons_of_pos (by simpa using shared),
        List.filter_cons_of_neg shared, List.length_cons]
      by_cases above : budget < faults + 1
      · rw [if_pos above, if_pos (by omega)]
      · rw [if_neg above, ih (by omega), Nat.add_right_comm, Nat.add_assoc]

theorem sharedWithin_keys (smaller larger : Record) (budget : Nat) :
    sharedWithin larger budget 0 smaller.properties.keys =
      if budget < smaller.size - (smaller.properties.keys.filter larger.properties.contains).length then none
      else some (smaller.properties.keys.filter larger.properties.contains) := by
  have parts := List.length_eq_length_filter_add (l := smaller.properties.keys) larger.properties.contains
  have size : smaller.properties.keys.length = smaller.size := List.length_map _
  rw [sharedWithin_eq (Nat.zero_le budget)]
  by_cases above : budget < smaller.size -
      (smaller.properties.keys.filter larger.properties.contains).length
  · rw [if_pos above, if_pos (by omega)]
  · rw [if_neg above, if_neg (by omega)]

/-- What a comparison does with the names that the smaller record shares with the larger. -/
theorem canCombine_eq (a b : Record) : g.canCombine onlySame a b =
    if sizesDiffer onlySame a.size b.size then .ok false
    else
      let (larger, smaller) := if b.size < a.size then (a, b) else (b, a)
      let shared := smaller.properties.keys.filter larger.properties.contains
      (do
        let budget ← faultBudget smaller larger
        if budget < smaller.size - shared.length then .ok false
        else g.propertiesMatch a b shared) := by
  unfold canCombine
  generalize (if b.size < a.size then (a, b) else (b, a)) = sides
  refine if_congr Iff.rfl rfl (bind_congr fun budget => ?_)
  rw [sharedWithin_keys]
  by_cases above : budget < sides.2.size -
      (sides.2.properties.keys.filter sides.1.properties.contains).length
  · simp only [if_pos above]
  · simp only [if_neg above]

/-- Comparing two records never fails. -/
theorem exists_canCombine (a b : Record) : ∃ answer, g.canCombine onlySame a b = .ok answer := by
  rw [canCombine_eq]
  cases sizes : sizesDiffer onlySame a.size b.size with
  | true => exact ⟨false, rfl⟩
  | false =>
    have close := close_of_sizesDiffer onlySame sizes
    have shared : ∀ {smaller larger : Record}, ∀ name ∈
        smaller.properties.keys.filter larger.properties.contains,
        name ∈ smaller.properties.keys ∧ name ∈ larger.properties.keys := by
      intro smaller larger name listed
      obtain ⟨inSmaller, inLarger⟩ := List.mem_filter.1 listed
      exact ⟨inSmaller, OrderedMap.contains_iff.1 inLarger⟩
    simp only [Bool.false_eq_true, if_false]
    split
    · obtain ⟨budget, found⟩ := exists_faultBudget close.2
      obtain ⟨answer, matched⟩ := g.exists_propertiesMatch (a := a) (b := b) fun name listed =>
        (shared name listed).symm
      rw [found]
      by_cases less : budget < b.size - (b.properties.keys.filter a.properties.contains).length
      · exact ⟨false, if_pos less⟩
      · exact ⟨answer, (if_neg less).trans matched⟩
    · obtain ⟨budget, found⟩ := exists_faultBudget close.1
      obtain ⟨answer, matched⟩ := g.exists_propertiesMatch (a := a) (b := b) fun name listed =>
        shared name listed
      rw [found]
      by_cases less : budget < a.size - (a.properties.keys.filter b.properties.contains).length
      · exact ⟨false, if_pos less⟩
      · exact ⟨answer, (if_neg less).trans matched⟩

end Graph

namespace Clique

variable (g : Graph) (onlySame : Bool)

/-! ## Dealing candidates out -/

theorem exists_fuzzyMatch (candidate : Candidate) (prototypes : List Candidate) :
    ∃ answer, fuzzyMatch g onlySame candidate prototypes = .ok answer := by
  induction prototypes with
  | nil => exact ⟨false, rfl⟩
  | cons anchor rest ih =>
    obtain ⟨here, compared⟩ := g.exists_canCombine onlySame anchor.2 candidate.2
    rw [fuzzyMatch, compared]
    cases here with
    | true => exact ⟨true, rfl⟩
    | false => exact ih

theorem exists_join? (clique : Clique) (candidate : Candidate) :
    ∃ larger, join? g onlySame clique candidate = .ok larger := by
  unfold join?
  split
  · exact ⟨_, rfl⟩
  · obtain ⟨answer, found⟩ := exists_fuzzyMatch g onlySame candidate clique.prototypes
    rw [found]
    cases answer with
    | true => exact ⟨_, rfl⟩
    | false => exact ⟨_, rfl⟩

theorem exists_grow (clique : Clique) (candidates : List Candidate) :
    ∃ final left, grow g onlySame clique candidates = .ok (final, left) := by
  induction candidates generalizing clique with
  | nil => exact ⟨clique, [], rfl⟩
  | cons candidate rest ih =>
    obtain ⟨larger, joined⟩ := exists_join? g onlySame clique candidate
    rw [grow, joined]
    cases larger with
    | some larger => exact ih larger
    | none =>
      obtain ⟨final, left, grown⟩ := ih clique
      exact ⟨final, candidate :: left, by rw [grown]⟩

theorem exists_search (candidates : List Candidate) :
    ∃ cliques, search g onlySame candidates = .ok cliques := by
  fun_induction search g onlySame candidates with
  | case1 => exact ⟨[], rfl⟩
  | case2 seed rest fault grown =>
    obtain ⟨final, left, found⟩ := exists_grow g onlySame (ofSeed seed) rest
    rw [found] at grown
    cases grown
  | case3 seed rest clique left grown ih =>
    obtain ⟨others, found⟩ := ih
    rw [found]
    exact ⟨_, rfl⟩

/-- One clique after the other. -/
theorem search_cons (seed : Candidate) (rest : List Candidate) :
    search g onlySame (seed :: rest) =
      (match grow g onlySame (ofSeed seed) rest with
      | .error fault => .error fault
      | .ok (clique, left) => do
        let others ← search g onlySame left
        .ok (if 1 < clique.members.length then clique.members :: others else others)) := by
  rw [search]
  split
  · rename_i grown
    rw [grown]
  · rename_i grown
    rw [grown]

variable {g onlySame}

theorem search_of_grow {seed : Candidate} {rest left : List Candidate} {clique : Clique}
    {others cliques : List (List Ref)}
    (grown : grow g onlySame (ofSeed seed) rest = .ok (clique, left))
    (searched : search g onlySame left = .ok others)
    (listed : (if 1 < clique.members.length then clique.members :: others else others) = cliques) :
    search g onlySame (seed :: rest) = .ok cliques := by
  rw [search_cons, grown]
  simp only
  rw [searched, ← listed]
  rfl

theorem exists_of_fuzzyMatch {candidate : Candidate} {prototypes : List Candidate}
    (found : fuzzyMatch g onlySame candidate prototypes = .ok true) :
    ∃ anchor ∈ prototypes, g.canCombine onlySame anchor.2 candidate.2 = .ok true := by
  induction prototypes with
  | nil => cases found
  | cons anchor rest ih =>
    obtain ⟨here, compared⟩ := g.exists_canCombine onlySame anchor.2 candidate.2
    rw [fuzzyMatch, compared] at found
    cases here with
    | true => exact ⟨anchor, List.mem_cons_self, compared⟩
    | false =>
      obtain ⟨other, later, combines⟩ := ih found
      exact ⟨other, List.mem_cons_of_mem _ later, combines⟩

theorem forall_of_fuzzyMatch {candidate : Candidate} {prototypes : List Candidate}
    (found : fuzzyMatch g onlySame candidate prototypes = .ok false) :
    ∀ anchor ∈ prototypes, g.canCombine onlySame anchor.2 candidate.2 = .ok false := by
  induction prototypes with
  | nil => exact fun anchor listed => by cases listed
  | cons anchor rest ih =>
    obtain ⟨here, compared⟩ := g.exists_canCombine onlySame anchor.2 candidate.2
    rw [fuzzyMatch, compared] at found
    cases here with
    | true => cases found
    | false =>
      rintro other (_ | ⟨_, later⟩)
      · exact compared
      · exact ih found other later

/-- A candidate that joins has the shape of a prototype, or may be a sample of the shape of one and
becomes a prototype too. -/
theorem join?_eq_some {clique larger : Clique} {candidate : Candidate}
    (joined : join? g onlySame clique candidate = .ok (some larger)) :
    larger.members = clique.members ++ [candidate.1] ∧
      ((∃ anchor ∈ clique.prototypes, g.sameShape false anchor.1 candidate.1 = true ∧
          larger.prototypes = clique.prototypes) ∨
        ∃ anchor ∈ clique.prototypes, g.canCombine onlySame anchor.2 candidate.2 = .ok true ∧
          larger.prototypes = clique.prototypes ++ [candidate]) := by
  unfold join? at joined
  split at joined
  · rename_i alike
    obtain ⟨anchor, listed, same⟩ := List.any_eq_true.1 alike
    cases joined
    exact ⟨rfl, .inl ⟨anchor, listed, same, rfl⟩⟩
  · obtain ⟨answer, found⟩ := exists_fuzzyMatch g onlySame candidate clique.prototypes
    rw [found] at joined
    cases answer with
    | true =>
      obtain ⟨anchor, listed, combines⟩ := exists_of_fuzzyMatch found
      cases joined
      exact ⟨rfl, .inr ⟨anchor, listed, combines, rfl⟩⟩
    | false => cases joined

/-- A candidate that does not join matches no prototype. -/
theorem join?_eq_none {clique : Clique} {candidate : Candidate}
    (joined : join? g onlySame clique candidate = .ok none) :
    ∀ anchor ∈ clique.prototypes, g.sameShape false anchor.1 candidate.1 ≠ true ∧
      g.canCombine onlySame anchor.2 candidate.2 = .ok false := by
  unfold join? at joined
  split at joined
  · cases joined
  · rename_i unlike
    obtain ⟨answer, found⟩ := exists_fuzzyMatch g onlySame candidate clique.prototypes
    rw [found] at joined
    cases answer with
    | true => cases joined
    | false =>
      intro anchor listed
      refine ⟨fun same => unlike ?_, forall_of_fuzzyMatch found anchor listed⟩
      exact List.any_eq_true.2 ⟨anchor, listed, same⟩

/-- The turn of the first candidate: it joins the clique that the others meet, or it is left. -/
theorem grow_cons {clique final : Clique} {candidate : Candidate} {rest left : List Candidate}
    (grown : grow g onlySame clique (candidate :: rest) = .ok (final, left)) :
    (∃ larger, join? g onlySame clique candidate = .ok (some larger) ∧
      grow g onlySame larger rest = .ok (final, left)) ∨
    (join? g onlySame clique candidate = .ok none ∧ ∃ others, left = candidate :: others ∧
      grow g onlySame clique rest = .ok (final, others)) := by
  rw [grow] at grown
  split at grown
  · cases grown
  · rename_i larger joined
    exact .inl ⟨larger, joined, grown⟩
  · rename_i passed
    split at grown
    · cases grown
    · rename_i others inner
      cases grown
      exact .inr ⟨passed, _, rfl, inner⟩

/-- Every candidate joins or is left. -/
theorem grow_perm {clique final : Clique} {candidates left : List Candidate}
    (grown : grow g onlySame clique candidates = .ok (final, left)) :
    (final.members ++ left.map Prod.fst).Perm (clique.members ++ candidates.map Prod.fst) := by
  induction candidates generalizing clique left with
  | nil =>
    cases grown
    exact .refl _
  | cons candidate rest ih =>
    rcases grow_cons grown with ⟨larger, joined, inner⟩ | ⟨_, others, rfl, inner⟩
    · have dealt := ih inner
      rw [(join?_eq_some joined).1, List.append_assoc] at dealt
      exact dealt
    · have dealt := ih inner
      rw [List.map_cons, List.map_cons]
      exact List.perm_middle.trans ((dealt.cons candidate.1).trans List.perm_middle.symm)

/-- Members that a clique has, it keeps. -/
theorem prefix_grow {clique final : Clique} {candidates left : List Candidate}
    (grown : grow g onlySame clique candidates = .ok (final, left)) :
    clique.members <+: final.members := by
  induction candidates generalizing clique left with
  | nil =>
    cases grown
    exact List.prefix_refl _
  | cons candidate rest ih =>
    rcases grow_cons grown with ⟨larger, joined, inner⟩ | ⟨_, others, rfl, inner⟩
    · have kept := ih inner
      rw [(join?_eq_some joined).1] at kept
      exact (List.prefix_append _ _).trans kept
    · exact ih inner

/-- What a search finds after its first clique has grown. -/
theorem others_of_search {members : List Ref} {left : List Candidate} {cliques : List (List Ref)}
    (found : (do
      let others ← search g onlySame left
      .ok (if 1 < members.length then members :: others else others)) = .ok cliques) :
    ∃ others, search g onlySame left = .ok others ∧
      (if 1 < members.length then members :: others else others) = cliques := by
  obtain ⟨others, searched⟩ := exists_search g onlySame left
  rw [searched] at found
  exact ⟨others, searched, Except.ok.inj found⟩

/-- Every candidate is dealt out once, to a clique or to what is left over. -/
theorem search_perm {candidates : List Candidate} {cliques : List (List Ref)}
    (found : search g onlySame candidates = .ok cliques) :
    ∃ remaining, (cliques.flatten ++ remaining).Perm (candidates.map Prod.fst) := by
  fun_induction search g onlySame candidates generalizing cliques with
  | case1 =>
    cases found
    exact ⟨[], .refl _⟩
  | case2 => cases found
  | case3 seed rest clique left grown ih =>
    obtain ⟨others, searched, rfl⟩ := others_of_search found
    obtain ⟨remaining, perm⟩ := ih searched
    have dealt : (clique.members ++ left.map Prod.fst).Perm ((seed :: rest).map Prod.fst) :=
      grow_perm grown
    have whole : (clique.members ++ (others.flatten ++ remaining)).Perm ((seed :: rest).map Prod.fst) :=
      (perm.append_left clique.members).trans dealt
    split
    · refine ⟨remaining, ?_⟩
      rw [List.flatten_cons, List.append_assoc]
      exact whole
    · refine ⟨clique.members ++ remaining, ?_⟩
      have moved : (others.flatten ++ (clique.members ++ remaining)).Perm
          (clique.members ++ (others.flatten ++ remaining)) := by
        rw [← List.append_assoc, ← List.append_assoc]
        exact List.perm_append_comm.append_right remaining
      exact moved.trans whole

/-- A clique that is found has two members at least. -/
theorem length_of_mem_search {candidates : List Candidate} {cliques : List (List Ref)}
    (found : search g onlySame candidates = .ok cliques) {clique : List Ref}
    (listed : clique ∈ cliques) : 1 < clique.length := by
  fun_induction search g onlySame candidates generalizing cliques with
  | case1 =>
    cases found
    cases listed
  | case2 => cases found
  | case3 seed rest grownClique left grown ih =>
    obtain ⟨others, searched, rfl⟩ := others_of_search found
    split at listed
    · rename_i several
      rcases List.mem_cons.1 listed with rfl | later
      · exact several
      · exact ih searched later
    · exact ih searched listed

end Clique

namespace Graph

variable (g : Graph)

/-! ## Candidates -/

theorem exists_candidate {r : Ref} (listed : r ∈ g.reachableOf .record) :
    ∃ record, g.type? r = some (.record record) ∧ g.candidate r = .ok (r, record) := by
  obtain ⟨_, kind⟩ := g.mem_reachableOf.1 listed
  obtain ⟨type, found, isRecord⟩ := g.exists_type?_of_kind? kind
  cases type with
  | record record =>
    refine ⟨record, found, ?_⟩
    rw [candidate, g.record?_eq_some_iff.2 found]
  | primitive p => cases p <;> cases isRecord
  | _ => cases isRecord

theorem exists_mapM_candidate {refs : List Ref} (listed : ∀ r ∈ refs, r ∈ g.reachableOf .record) :
    ∃ records, refs.mapM g.candidate = .ok records ∧
      List.Forall₂ (fun r entry => entry.1 = r ∧ g.type? r = some (.record entry.2)) refs records := by
  induction refs with
  | nil => exact ⟨[], rfl, .nil⟩
  | cons r rest ih =>
    obtain ⟨record, type, found⟩ := g.exists_candidate (listed r List.mem_cons_self)
    obtain ⟨records, later, related⟩ := ih fun s inside => listed s (List.mem_cons_of_mem _ inside)
    refine ⟨(r, record) :: records, ?_, .cons ⟨rfl, type⟩ related⟩
    rw [List.mapM_cons, found, later]
    rfl

/-- A reachable record that may be merged. -/
def Eligible (options : SearchOptions) (r : Ref) : Prop :=
  r ∈ g.reachable ∧
    ∃ record, g.record? r = some record ∧ (options.includeFixed = true ∨ record.fixed = false)

/-- The candidates are the eligible records, each once and in the order of reachability. -/
theorem candidates_spec (options : SearchOptions) :
    ∃ candidates, g.candidates options = .ok candidates ∧
      (candidates.map Prod.fst).Sublist (g.reachableOf .record) ∧
      (∀ entry ∈ candidates, g.type? entry.1 = some (.record entry.2)) ∧
      ∀ r, g.Eligible options r → r ∈ candidates.map Prod.fst := by
  obtain ⟨records, found, related⟩ := g.exists_mapM_candidate fun r listed => listed
  refine ⟨records.filter fun entry => options.includeFixed || !entry.2.fixed, ?_, ?_, ?_, ?_⟩
  · rw [candidates, found]
    rfl
  · have all : records.map Prod.fst = g.reachableOf .record := by
      have same : List.Forall₂ (fun r s => r = s) (g.reachableOf .record) (records.map Prod.fst) := by
        rw [List.forall₂_map_right_iff]
        exact related.imp fun _ _ entry => entry.1.symm
      exact (List.forall₂_eq_eq_eq ▸ same).symm
    rw [← all]
    exact List.filter_sublist.map Prod.fst
  · intro entry member
    obtain ⟨r, _, same, type⟩ := exists_of_mem_right related (List.mem_filter.1 member).1
    rw [same]
    exact type
  · rintro r ⟨reached, record, isRecord, passes⟩
    have type := g.record?_eq_some_iff.1 isRecord
    have listed : r ∈ g.reachableOf .record :=
      g.mem_reachableOf.2 ⟨reached, g.kind?_of_type? type⟩
    obtain ⟨entry, member, same, type'⟩ := exists_of_mem_left related listed
    have equal : record = entry.2 := Ty.record.inj (Option.some.inj (type.symm.trans type'))
    refine List.mem_map.2 ⟨entry, List.mem_filter.2 ⟨member, ?_⟩, same⟩
    rw [← equal]
    rcases passes with all | free
    · rw [all]
      rfl
    · rw [free]
      exact Bool.or_true _

/-- Only eligible records are candidates. -/
theorem eligible_of_mem_candidates {options : SearchOptions} {candidates : List Candidate}
    (listed : g.candidates options = .ok candidates) {r : Ref}
    (member : r ∈ candidates.map Prod.fst) : g.Eligible options r := by
  obtain ⟨records, found, related⟩ :=
    g.exists_mapM_candidate fun r (listed : r ∈ g.reachableOf .record) => listed
  rw [Graph.candidates, found] at listed
  cases listed
  obtain ⟨entry, kept, rfl⟩ := List.mem_map.1 member
  obtain ⟨known, passes⟩ := List.mem_filter.1 kept
  obtain ⟨r, reached, same, type⟩ := exists_of_mem_right related known
  rw [same]
  refine ⟨(g.mem_reachableOf.1 reached).1, entry.2, g.record?_eq_some_iff.2 type, ?_⟩
  simpa using passes

theorem similarityCliques_eq {options : SearchOptions} {candidates : List Candidate}
    {cliques : List (List Ref)} (listed : g.candidates options = .ok candidates)
    (searched : Clique.search g options.onlySame candidates = .ok cliques) :
    g.similarityCliques options = .ok cliques := by
  rw [similarityCliques, listed]
  exact searched

/-- Only records that may be merged are in a clique. -/
theorem eligible_of_mem_clique {options : SearchOptions} {cliques : List (List Ref)}
    (found : g.similarityCliques options = .ok cliques) {clique : List Ref}
    (member : clique ∈ cliques) {r : Ref} (inside : r ∈ clique) : g.Eligible options r := by
  obtain ⟨candidates, listed, _⟩ := g.candidates_spec options
  rw [similarityCliques, listed] at found
  obtain ⟨remaining, perm⟩ := Clique.search_perm found
  have dealt : r ∈ cliques.flatten ++ remaining :=
    List.mem_append_left _ (List.mem_flatten.2 ⟨clique, member, inside⟩)
  exact g.eligible_of_mem_candidates listed (perm.mem_iff.1 dealt)

/-- The search never fails, and finds disjoint cliques of reachable records, each of two members at
least. -/
theorem similarityCliques_spec (options : SearchOptions) :
    ∃ cliques, g.similarityCliques options = .ok cliques ∧ cliques.flatten.Nodup ∧
      (∀ clique ∈ cliques, 1 < clique.length) ∧
      ∀ clique ∈ cliques, ∀ r ∈ clique, r ∈ g.reachableOf .record := by
  obtain ⟨candidates, listed, sub, _, _⟩ := g.candidates_spec options
  obtain ⟨cliques, searched⟩ := Clique.exists_search g options.onlySame candidates
  have found := g.similarityCliques_eq listed searched
  obtain ⟨remaining, perm⟩ := Clique.search_perm searched
  have distinct : (cliques.flatten ++ remaining).Nodup :=
    perm.nodup_iff.2 (sub.nodup (g.nodup_reachableOf .record))
  refine ⟨cliques, found, (List.nodup_append.1 distinct).1, ?_, ?_⟩
  · exact fun clique member => Clique.length_of_mem_search searched member
  · intro clique member r inside
    obtain ⟨reached, record, isRecord, _⟩ := g.eligible_of_mem_clique found member inside
    exact g.mem_reachableOf.2 ⟨reached, g.kind?_of_type? (g.record?_eq_some_iff.1 isRecord)⟩

end Graph

end SchemaGraph
