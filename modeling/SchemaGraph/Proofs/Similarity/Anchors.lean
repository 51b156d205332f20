import SchemaGraph.Proofs.Similarity.Overlap
/-!
# Proofs.Similarity.Anchors -- comparing with prototypes alone loses nothing

A candidate that joins because it has the shape of a prototype does not become a prototype. The plain
search (`Clique.searchPlain`) compares with every member instead. Both find the same cliques where no
union is a member of a union (`Graph.similarityCliques_eq_plain`): every member has the shape of some
prototype, having one shape is transitive, and a record may be replaced by one of its shape when it is
compared as a noisy sample (`Graph.canCombine_of_sameShape`).

The last step is where the unions matter. The comparison of samples takes unions apart at every depth,
that of shapes member by member, so records of one shape may differ in the cases that their nested
unions have.
-/

namespace SchemaGraph

set_option autoImplicit false

namespace Graph

variable {g : Graph} {onlySame : Bool} {x y : Ref}

/-- No union is a member of a union. -/
def UnionsFlat (g : Graph) : Prop := ∀ r, ∀ m ∈ g.members r, g.kind? m ≠ some .union

/-! ## Cases of types of one shape -/

theorem kind?_of_sameShape (same : g.sameShape false x y = true) : g.kind? x = g.kind? y := by
  rcases alikeAt_of_sameShape same with equal | ⟨s, t, typeX, typeY, alike⟩
  · rw [equal]
  · have kinds : s.kind = t.kind := by cases alike <;> rfl
    rw [g.kind?_of_type? typeX, g.kind?_of_type? typeY, kinds]

/-- A type that is no union is its own case, unless it is null. -/
theorem mem_cases_of_plain (plain : g.kind? x ≠ some .union) {m : Ref} :
    m ∈ g.cases x ↔ m = x ∧ x < g.size ∧ g.kind? x ≠ some .null := by
  rw [OrderedSet.mem_def, cases, List.mem_filter, g.mem_leaves_iff, decide_eq_true_eq]
  constructor
  · rintro ⟨⟨inside, _, t, listed, path⟩, notNull⟩
    cases List.mem_singleton.1 listed
    cases g.eq_of_unfolds plain path
    exact ⟨rfl, inside, notNull⟩
  · rintro ⟨rfl, inside, notNull⟩
    exact ⟨⟨inside, plain, m, List.mem_cons_self, .refl⟩, notNull⟩

/-- The cases of a union without unions are its members without null. -/
theorem mem_cases_of_union (flat : g.UnionsFlat) {members : OrderedSet Ref}
    (found : g.type? x = some (.union members)) {m : Ref} :
    m ∈ g.cases x ↔ m ∈ members ∧ g.kind? m ≠ some .null := by
  have isMember : ∀ {n : Ref}, n ∈ g.members x ↔ n ∈ members := by
    intro n
    rw [Graph.members, found]
    exact Iff.rfl
  rw [OrderedSet.mem_def, cases, List.mem_filter, g.mem_leaves_iff, decide_eq_true_eq]
  constructor
  · rintro ⟨⟨_, plain, t, listed, path⟩, notNull⟩
    cases List.mem_singleton.1 listed
    rcases Relation.ReflTransGen.cases_head path with rfl | ⟨n, member, rest⟩
    · exact absurd (g.kind?_of_type? found) plain
    · cases g.eq_of_unfolds (flat x n member) rest
      exact ⟨isMember.1 member, notNull⟩
  · rintro ⟨listed, notNull⟩
    have member := isMember.2 listed
    have inside := g.children_lt (g.children_of_mem_members member)
    exact ⟨⟨inside, flat x m member, x, List.mem_cons_self, .single member⟩, notNull⟩

/-- Flat unions have no two cases of one kind. -/
theorem UnionsFlat.kindsDiffer (flat : g.UnionsFlat) (r : Ref) : g.KindsDiffer (g.cases r) := by
  intro a inA b inB same
  by_cases isUnion : g.kind? r = some .union
  · obtain ⟨type, found, kind⟩ := g.exists_type?_of_kind? isUnion
    obtain ⟨members, rfl⟩ := Ty.exists_union_of_kind kind
    exact g.eq_of_kind?_eq found ((mem_cases_of_union flat found).1 inA).1
      ((mem_cases_of_union flat found).1 inB).1 same
  · exact ((mem_cases_of_plain isUnion).1 inA).1.trans ((mem_cases_of_plain isUnion).1 inB).1.symm

/-- The cases of types of one shape match kind by kind. -/
theorem cases_alike (flat : g.UnionsFlat) (same : g.sameShape false x y = true) :
    (Ty.union (g.cases x)).Alike g.kind? (fun m n => g.sameShape false m n = true)
      (.union (g.cases y)) := by
  rcases alikeAt_of_sameShape same with rfl | ⟨s, t, typeX, typeY, alike⟩
  · refine .union (fun _ => Iff.rfl) fun m inX n inX' kinds => ?_
    rw [flat.kindsDiffer x m inX n inX' kinds]
    exact sameShape_refl n
  · by_cases isUnion : g.kind? x = some .union
    · rw [g.kind?_of_type? typeX] at isUnion
      obtain ⟨l, rfl⟩ := Ty.exists_union_of_kind (Option.some.inj isUnion)
      cases alike with
      | @union _ r kinds members =>
        refine .union (fun kind => ?_) fun m inX n inY => ?_
        · simp only [mem_cases_of_union flat typeX, mem_cases_of_union flat typeY]
          constructor
          · rintro ⟨m, ⟨listed, notNull⟩, rfl⟩
            obtain ⟨n, listed', equal⟩ := (kinds (g.kind? m)).1 ⟨m, listed, rfl⟩
            exact ⟨n, ⟨listed', equal ▸ notNull⟩, equal⟩
          · rintro ⟨n, ⟨listed, notNull⟩, rfl⟩
            obtain ⟨m, listed', equal⟩ := (kinds (g.kind? n)).2 ⟨n, listed, rfl⟩
            exact ⟨m, ⟨listed', equal ▸ notNull⟩, equal⟩
        · exact members m ((mem_cases_of_union flat typeX).1 inX).1 n
            ((mem_cases_of_union flat typeY).1 inY).1
    · have kinds := kind?_of_sameShape same
      have isUnion' : g.kind? y ≠ some .union := kinds ▸ isUnion
      refine .union (fun kind => ?_) fun m inX n inY _ => ?_
      · simp only [mem_cases_of_plain isUnion, mem_cases_of_plain isUnion']
        constructor
        · rintro ⟨_, ⟨rfl, _, notNull⟩, rfl⟩
          exact ⟨y, ⟨rfl, g.lt_of_type? typeY, kinds ▸ notNull⟩, kinds.symm⟩
        · rintro ⟨_, ⟨rfl, _, notNull⟩, rfl⟩
          exact ⟨x, ⟨rfl, g.lt_of_type? typeX, kinds.symm ▸ notNull⟩, kinds⟩
      · rw [((mem_cases_of_plain isUnion).1 inX).1, ((mem_cases_of_plain isUnion').1 inY).1]
        exact same

/-- Sets of cases match when they match as members of unions would. -/
theorem caseSetsMatch_cases_iff (flat : g.UnionsFlat) :
    g.caseSetsMatch (g.cases x) (g.cases y) = true ↔
      (Ty.union (g.cases x)).Alike g.kind? (fun m n => g.sameShape false m n = true)
        (.union (g.cases y)) := by
  rw [Ty.alike_union_iff (flat.kindsDiffer x).nodup (flat.kindsDiffer y).nodup]
  constructor
  · exact exists_of_caseSetsMatch
  · rintro ⟨size, each⟩
    exact caseSetsMatch_of_forall (flat.kindsDiffer y).oneShapePerKind
      (fun _ => isSome_kind?_of_mem_cases) size each

/-- A set of cases matches what a set of the same shape matches. -/
theorem caseSetsMatch_of_sameShape (flat : g.UnionsFlat) {z : Ref}
    (same : g.sameShape false x y = true) (matched : g.caseSetsMatch (g.cases x) (g.cases z) = true) :
    g.caseSetsMatch (g.cases y) (g.cases z) = true := by
  rw [caseSetsMatch_cases_iff flat] at matched ⊢
  refine ((cases_alike flat (sameShape_symm same)).trans matched).mono ?_
  rintro m n ⟨k, first, second⟩
  exact sameShape_trans first second

/-! ## Records of one shape -/

theorem sharedNames_congr {k l other : Record}
    (names : ∀ name, name ∈ k.properties.keys ↔ name ∈ l.properties.keys) (name : String) :
    name ∈ sharedNames k other ↔ name ∈ sharedNames l other := by
  rw [mem_sharedNames, mem_sharedNames, names]

/-- What may be a sample of a record may be one of every record of its shape. -/
theorem canCombine_of_sameShape (flat : g.UnionsFlat) {k l other : Record}
    (typeK : g.type? x = some (.record k)) (typeL : g.type? y = some (.record l))
    (same : g.sameShape false x y = true) (combines : g.canCombine onlySame k other = .ok true) :
    g.canCombine onlySame l other = .ok true := by
  obtain ⟨names, types⟩ := records_of_sameShape typeK typeL same
  have shared : (sharedNames k other).length = (sharedNames l other).length :=
    length_eq_of_nodup (k.properties.nodup.filter _) (l.properties.nodup.filter _)
      (sharedNames_congr names)
  obtain ⟨sizes, overlap, cases⟩ := canCombine_iff.1 combines
  rw [size_of_sameShape typeK typeL same] at sizes overlap
  rw [shared] at overlap
  refine canCombine_iff.2 ⟨sizes, overlap, fun name inBoth q r foundQ foundR => ?_⟩
  have inBoth' := (sharedNames_congr names name).2 inBoth
  obtain ⟨p, foundP⟩ := OrderedMap.mem_keys_iff.1 (mem_sharedNames.1 inBoth').1
  exact caseSetsMatch_of_sameShape flat (types name p q foundP foundQ)
    (cases name inBoth' p r foundP foundR)

end Graph

namespace Clique

variable (g : Graph) (onlySame : Bool)

/-! ## The plain search -/

/-- Whether a candidate matches one of the members, exactly or as a noisy sample. -/
def matchesMember (members : List Candidate) (candidate : Candidate) : Except MergeFault Bool :=
  if members.any fun anchor => g.sameShape false anchor.1 candidate.1 then .ok true
  else fuzzyMatch g onlySame candidate members

/-- The members after all candidates had their turn, and the candidates that did not join. -/
def growPlain (members : List Candidate) :
    List Candidate → Except MergeFault (List Candidate × List Candidate)
  | [] => .ok (members, [])
  | candidate :: rest =>
    match matchesMember g onlySame members candidate with
    | .error fault => .error fault
    | .ok true => growPlain (members ++ [candidate]) rest
    | .ok false =>
      match growPlain members rest with
      | .error fault => .error fault
      | .ok (final, left) => .ok (final, candidate :: left)

theorem length_growPlain {members final candidates left : List Candidate}
    (grown : growPlain g onlySame members candidates = .ok (final, left)) :
    left.length ≤ candidates.length := by
  induction candidates generalizing members left with
  | nil =>
    cases grown
    exact Nat.le_refl _
  | cons candidate rest ih =>
    rw [growPlain] at grown
    split at grown
    · cases grown
    · exact Nat.le_succ_of_le (ih grown)
    · split at grown
      · cases grown
      · rename_i inner
        cases grown
        exact Nat.succ_le_succ (ih inner)

/-- The cliques among the candidates, where every member of a clique takes others in. -/
def searchPlain (candidates : List Candidate) : Except MergeFault (List (List Ref)) :=
  match candidates with
  | [] => .ok []
  | seed :: rest =>
    match _grown : growPlain g onlySame [seed] rest with
    | .error fault => .error fault
    | .ok (members, left) => do
      let others ← searchPlain left
      .ok (if 1 < members.length then members.map Prod.fst :: others else others)
termination_by candidates.length
decreasing_by exact Nat.lt_succ_of_le (length_growPlain g onlySame _grown)

theorem searchPlain_cons (seed : Candidate) (rest : List Candidate) :
    searchPlain g onlySame (seed :: rest) =
      (match growPlain g onlySame [seed] rest with
      | .error fault => .error fault
      | .ok (members, left) => do
        let others ← searchPlain g onlySame left
        .ok (if 1 < members.length then members.map Prod.fst :: others else others)) := by
  rw [searchPlain]
  split
  · rename_i grown
    rw [grown]
  · rename_i grown
    rw [grown]

/-! ## Prototypes stand for the members -/

variable {g onlySame} {clique : Clique} {members candidates : List Candidate}

theorem matchesMember_eq_false_iff {candidate : Candidate} :
    matchesMember g onlySame members candidate = .ok false ↔
      ∀ anchor ∈ members, Unlike g onlySame anchor candidate := by
  have asClique : matchesMember g onlySame members candidate = .ok false ↔
      join? g onlySame ⟨[], members⟩ candidate = .ok none := by
    unfold matchesMember join?
    split
    · simp
    · obtain ⟨answer, found⟩ := exists_fuzzyMatch g onlySame candidate members
      simp only [found]
      cases answer with
      | true => simp [bind, Except.bind]
      | false => simp [bind, Except.bind]
  exact asClique.trans join?_eq_none_iff

theorem exists_matchesMember (candidate : Candidate) :
    ∃ answer, matchesMember g onlySame members candidate = .ok answer := by
  unfold matchesMember
  split
  · exact ⟨true, rfl⟩
  · exact exists_fuzzyMatch g onlySame candidate members

/-- The prototypes of the clique are among its members, and every member has the shape of one of them. -/
structure StandsFor (g : Graph) (clique : Clique) (members : List Candidate) : Prop where
  same : clique.members = members.map Prod.fst
  records : ∀ m ∈ members, g.type? m.1 = some (.record m.2)
  inside : ∀ anchor ∈ clique.prototypes, anchor ∈ members
  covers : ∀ m ∈ members, ∃ anchor ∈ clique.prototypes, g.sameShape false anchor.1 m.1 = true

theorem standsFor_ofSeed {seed : Candidate} (record : g.type? seed.1 = some (.record seed.2)) :
    StandsFor g (ofSeed seed) [seed] where
  same := rfl
  records m listed := by
    rw [List.mem_singleton.1 listed]
    exact record
  inside _ listed := listed
  covers m listed := by
    rw [List.mem_singleton.1 listed]
    exact ⟨seed, List.mem_cons_self, Graph.sameShape_refl _⟩

/-- What a prototype does not match, no member of its shape does. -/
theorem Unlike.of_sameShape (flat : g.UnionsFlat) {anchor m candidate : Candidate}
    (recordA : g.type? anchor.1 = some (.record anchor.2)) (recordM : g.type? m.1 = some (.record m.2))
    (same : g.sameShape false anchor.1 m.1 = true) (unlike : Unlike g onlySame anchor candidate) :
    Unlike g onlySame m candidate where
  shape alike := unlike.shape (Graph.sameShape_trans same alike)
  sample combines := unlike.sample
    (Graph.canCombine_of_sameShape flat recordM recordA (Graph.sameShape_symm same) combines)

namespace StandsFor

/-- A candidate matches a member just when it matches a prototype. -/
theorem unlike_iff (standsFor : StandsFor g clique members) (flat : g.UnionsFlat)
    (candidate : Candidate) : (∀ anchor ∈ clique.prototypes, Unlike g onlySame anchor candidate) ↔
      ∀ m ∈ members, Unlike g onlySame m candidate := by
  constructor
  · intro unlike m listed
    obtain ⟨anchor, prototype, same⟩ := standsFor.covers m listed
    have inside := standsFor.inside anchor prototype
    exact (unlike anchor prototype).of_sameShape flat (standsFor.records anchor inside)
      (standsFor.records m listed) same
  · exact fun unlike anchor prototype => unlike anchor (standsFor.inside anchor prototype)

/-- Whether a candidate joins by its shape or as a sample, it then has the shape of a prototype. -/
theorem join (standsFor : StandsFor g clique members) {larger : Clique} {candidate : Candidate}
    (record : g.type? candidate.1 = some (.record candidate.2))
    (joined : join? g onlySame clique candidate = .ok (some larger)) :
    StandsFor g larger (members ++ [candidate]) := by
  obtain ⟨kept, sources⟩ := prototypes_of_join? joined
  refine ⟨?_, fun m listed => ?_, fun anchor prototype => ?_, fun m listed => ?_⟩
  · rw [(join?_eq_some joined).1, standsFor.same, List.map_append]
    rfl
  · rcases List.mem_append.1 listed with old | last
    · exact standsFor.records m old
    · rw [List.mem_singleton.1 last]
      exact record
  · rcases sources anchor prototype with old | rfl
    · exact List.mem_append_left _ (standsFor.inside anchor old)
    · exact List.mem_append_right _ List.mem_cons_self
  · rcases List.mem_append.1 listed with old | last
    · obtain ⟨anchor, prototype, same⟩ := standsFor.covers m old
      exact ⟨anchor, kept anchor prototype, same⟩
    · cases List.mem_singleton.1 last
      rcases (join?_eq_some joined).2 with ⟨anchor, prototype, same, _⟩ | ⟨_, _, _, grew⟩
      · exact ⟨anchor, kept anchor prototype, same⟩
      · refine ⟨candidate, ?_, Graph.sameShape_refl _⟩
        rw [grew]
        exact List.mem_append_right _ List.mem_cons_self

/-- Both ways to grow take the same candidates in and leave the same ones. -/
theorem grow (standsFor : StandsFor g clique members) (flat : g.UnionsFlat)
    (records : ∀ candidate ∈ candidates, g.type? candidate.1 = some (.record candidate.2)) :
    ∃ final members' left, grow g onlySame clique candidates = .ok (final, left) ∧
      growPlain g onlySame members candidates = .ok (members', left) ∧
      StandsFor g final members' := by
  induction candidates generalizing clique members with
  | nil => exact ⟨clique, members, [], rfl, rfl, standsFor⟩
  | cons candidate rest ih =>
    obtain ⟨record, later⟩ := List.forall_mem_cons.1 records
    have agree : (∀ anchor ∈ clique.prototypes, Unlike g onlySame anchor candidate) ↔
        ∀ m ∈ members, Unlike g onlySame m candidate := standsFor.unlike_iff flat candidate
    rw [← join?_eq_none_iff, ← matchesMember_eq_false_iff] at agree
    obtain ⟨larger, joined⟩ := exists_join? g onlySame clique candidate
    obtain ⟨answer, matched⟩ : ∃ answer, matchesMember g onlySame members candidate = .ok answer :=
      exists_matchesMember candidate
    rw [Clique.grow, growPlain]
    cases larger with
    | none =>
      obtain ⟨final, members', left, grown, plain, related⟩ := ih standsFor later
      rw [joined, agree.1 joined]
      exact ⟨final, members', candidate :: left, by rw [grown], by simp only [plain], related⟩
    | some larger =>
      cases answer with
      | false => cases joined.symm.trans (agree.2 matched)
      | true =>
        rw [joined, matched]
        exact ih (standsFor.join record joined) later

end StandsFor

/-- The plain search finds the same cliques. -/
theorem search_eq_searchPlain (flat : g.UnionsFlat)
    (records : ∀ candidate ∈ candidates, g.type? candidate.1 = some (.record candidate.2)) :
    search g onlySame candidates = searchPlain g onlySame candidates := by
  induction len : candidates.length using Nat.strong_induction_on generalizing candidates with
  | _ n ih =>
    cases candidates with
    | nil => rw [search, searchPlain]
    | cons seed rest =>
      obtain ⟨record, later⟩ := List.forall_mem_cons.1 records
      obtain ⟨clique, members, left, grown, plain, standsFor⟩ : ∃ clique members left,
          grow g onlySame (ofSeed seed) rest = .ok (clique, left) ∧
            growPlain g onlySame [seed] rest = .ok (members, left) ∧ StandsFor g clique members :=
        (standsFor_ofSeed record).grow flat later
      have fewer : left.length < n := by
        rw [← len]
        exact Nat.lt_succ_of_le (length_grow g onlySame grown)
      have recordsLeft := fun candidate listed => later candidate ((left_sublist grown).subset listed)
      rw [search_cons, searchPlain_cons, grown, plain]
      simp only [ih left.length fewer recordsLeft rfl, standsFor.same, List.length_map]

end Clique

namespace Graph

/-- The cliques of the plain search: every member of a clique, whether it joined by its shape or as a
sample, takes others in by its shape and as a sample. -/
def plainCliques (g : Graph) (options : SearchOptions) : Except MergeFault (List (List Ref)) := do
  Clique.searchPlain g options.onlySame (← g.candidates options)

theorem plainCliques_eq {g : Graph} {options : SearchOptions} {candidates : List Candidate}
    {cliques : List (List Ref)} (listed : g.candidates options = .ok candidates)
    (searched : Clique.searchPlain g options.onlySame candidates = .ok cliques) :
    g.plainCliques options = .ok cliques := by
  rw [plainCliques, listed]
  exact searched

/-- Where no union is a member of a union, comparing with the prototypes alone finds the cliques that
comparing with every member does. -/
theorem similarityCliques_eq_plain (g : Graph) (options : SearchOptions) (flat : g.UnionsFlat) :
    g.similarityCliques options = g.plainCliques options := by
  obtain ⟨candidates, listed, _, types, _⟩ := g.candidates_spec options
  obtain ⟨cliques, searched⟩ := Clique.exists_search g options.onlySame candidates
  have plain : Clique.searchPlain g options.onlySame candidates = .ok cliques :=
    (Clique.search_eq_searchPlain flat types).symm.trans searched
  rw [g.similarityCliques_eq listed searched, plainCliques_eq listed plain]

theorem unionsFlat_of_lt {g : Graph}
    (plain : ∀ r < g.size, ∀ m ∈ g.members r, g.kind? m ≠ some .union) : g.UnionsFlat := by
  intro r m member
  obtain ⟨_, found, _⟩ := g.mem_members_iff.1 member
  exact plain r (g.lt_of_type? found) m member

/-- Two records of one shape, and one that may be a sample of both. -/
def restated : Graph :=
  ⟨#[⟨.primitive .string, .empty⟩, ⟨.primitive .null, .empty⟩, ⟨.union (.ofList [0, 1]), .empty⟩,
      .required [("a", 0), ("b", 0), ("c", 2), ("d", 0)] false,
      .required [("a", 0), ("b", 0), ("c", 2), ("d", 0)] false,
      .required [("a", 0), ("b", 0), ("c", 0), ("e", 0)] false],
    .ofList [("P", 3), ("Q", 4), ("R", 5)], firstFault?_eq_none_iff.1 (by decide +kernel)⟩

/-- The second record is no prototype of the clique, and comparing with it as well finds the same. -/
theorem plainCliques_restated :
    restated.UnionsFlat ∧ restated.plainCliques ⟨false, false⟩ = .ok [[3, 4, 5]] := by
  have flat : restated.UnionsFlat := unionsFlat_of_lt (by decide)
  have found : restated.similarityCliques ⟨false, false⟩ = .ok [[3, 4, 5]] := by
    refine restated.similarityCliques_eq (by cbv) ?_
    rw [Clique.search_cons]
    cbv
  exact ⟨flat, (similarityCliques_eq_plain restated ⟨false, false⟩ flat).symm.trans found⟩

/-- The second record has the shape of the first, but not the cases of its nested unions, and the third is
a sample of the second alone. -/
def nestedSeed : Graph :=
  ⟨nestedText.nodes, .ofList [("C", 8), ("D", 9), ("P", 7)],
    firstFault?_eq_none_iff.1 (by decide +kernel)⟩

example : nestedSeed.similarityCliques ⟨false, false⟩ = .ok [[8, 9]] ∧
    nestedSeed.plainCliques ⟨false, false⟩ = .ok [[8, 9, 7]] := by
  constructor
  · refine nestedSeed.similarityCliques_eq (by cbv) ?_
    rw [Clique.search_cons]
    cbv
  · refine plainCliques_eq (by cbv) ?_
    rw [Clique.searchPlain_cons]
    cbv

end Graph

end SchemaGraph
