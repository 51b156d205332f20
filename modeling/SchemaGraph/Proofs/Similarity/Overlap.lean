import SchemaGraph.Proofs.Graph.Matching
import SchemaGraph.Proofs.Similarity.Separation
/-!
# Proofs.Similarity.Overlap -- which records are similar, and when a search finds none

The comparison of two records goes property by property and stops at the first that fails. What it
decides has no order in it (`Graph.canCombine_iff`): the records share enough names, and the types of
every property they share have the same cases. Cases are paired by kind, so where the cases of each
property differ in kind it does not matter which record comes first (`Graph.Similar.symm`).

A search finds no clique just when no two of the records that it compares are similar
(`Graph.similarityCliques_eq_nil_iff`).
-/

namespace SchemaGraph

set_option autoImplicit false

namespace Graph

variable {g : Graph} {onlySame : Bool}

/-! ## Sets of cases -/

/-- No two of the types have one kind. -/
def KindsDiffer (g : Graph) (types : OrderedSet Ref) : Prop :=
  ∀ a ∈ types, ∀ b ∈ types, g.kind? a = g.kind? b → a = b

/-- Types of one kind have one shape. -/
def OneShapePerKind (g : Graph) (types : OrderedSet Ref) : Prop :=
  ∀ a ∈ types, ∀ b ∈ types, g.kind? a = g.kind? b → g.sameShape false a b = true

theorem KindsDiffer.oneShapePerKind {types : OrderedSet Ref} (differ : g.KindsDiffer types) :
    g.OneShapePerKind types := by
  intro a inA b inB same
  rw [differ a inA b inB same]
  exact sameShape_refl b

theorem isSome_kind?_of_mem_cases {r m : Ref} (listed : m ∈ g.cases r) : (g.kind? m).isSome := by
  obtain ⟨leaf, _⟩ := List.mem_filter.1 (OrderedSet.mem_def.1 listed)
  obtain ⟨inside, _⟩ := g.mem_leaves_iff.1 leaf
  obtain ⟨type, found⟩ := g.exists_type? inside
  rw [g.kind?_of_type? found]
  rfl

section Sets

variable {s t : OrderedSet Ref}

/-- A type that matches has the shape of one of its kind. -/
theorem exists_of_caseMatches {m : Ref} (matched : g.caseMatches t m = true) :
    ∃ n ∈ t, g.kind? m = g.kind? n ∧ g.sameShape false m n = true := by
  unfold caseMatches at matched
  split at matched
  · rename_i member other found
    obtain ⟨first, inside, kinds, _⟩ := g.memberPair?_eq_some found
    have here : member = m := first
    exact ⟨other, inside, kinds, here ▸ matched⟩
  · cases matched

theorem caseMatches_of_mem (uniform : g.OneShapePerKind t) {m n : Ref} (known : (g.kind? m).isSome)
    (listed : n ∈ t) (kinds : g.kind? m = g.kind? n) (same : g.sameShape false m n = true) :
    g.caseMatches t m = true := by
  obtain ⟨kind, kindM⟩ := Option.isSome_iff_exists.1 known
  obtain ⟨⟨first, other⟩, found⟩ := g.exists_memberPair? kindM listed (kinds.symm.trans kindM)
  obtain ⟨here, inside, kinds', _⟩ := g.memberPair?_eq_some found
  have left : first = m := here
  unfold caseMatches
  rw [found, left]
  exact sameShape_trans same (uniform n listed other inside (kinds.symm.trans kinds'))

theorem exists_of_caseSetsMatch (matched : g.caseSetsMatch s t = true) :
    s.size = t.size ∧ ∀ m ∈ s, ∃ n ∈ t, g.kind? m = g.kind? n ∧ g.sameShape false m n = true := by
  rw [caseSetsMatch, Bool.and_eq_true, decide_eq_true_eq] at matched
  exact ⟨matched.1, fun m listed => exists_of_caseMatches (List.all_eq_true.1 matched.2 m listed)⟩

theorem caseSetsMatch_of_forall (uniform : g.OneShapePerKind t) (known : ∀ m ∈ s, (g.kind? m).isSome)
    (size : s.size = t.size)
    (each : ∀ m ∈ s, ∃ n ∈ t, g.kind? m = g.kind? n ∧ g.sameShape false m n = true) :
    g.caseSetsMatch s t = true := by
  rw [caseSetsMatch, Bool.and_eq_true, decide_eq_true_eq]
  refine ⟨size, List.all_eq_true.2 fun m listed => ?_⟩
  obtain ⟨n, inside, kinds, same⟩ := each m listed
  exact caseMatches_of_mem uniform (known m listed) inside kinds same

theorem caseSetsMatch_of_isEmpty (emptyS : s.isEmpty = true) (emptyT : t.isEmpty = true) :
    g.caseSetsMatch s t = true := by
  have nilS : s.toList = [] := List.isEmpty_iff.1 emptyS
  have nilT : t.toList = [] := List.isEmpty_iff.1 emptyT
  simp [caseSetsMatch, OrderedSet.size, nilS, nilT]

theorem KindsDiffer.nodup (differ : g.KindsDiffer s) : (s.toList.map g.kind?).Nodup :=
  List.Nodup.map_on differ s.nodup

/-- Sets whose types differ in kind match both ways. -/
theorem caseSetsMatch_symm (differS : g.KindsDiffer s) (differT : g.KindsDiffer t)
    (known : ∀ n ∈ t, (g.kind? n).isSome) (matched : g.caseSetsMatch s t = true) :
    g.caseSetsMatch t s = true := by
  have alike := (Ty.alike_union_iff differS.nodup differT.nodup).2 (exists_of_caseSetsMatch matched)
  have turned := alike.symm.mono fun x y same => sameShape_symm same
  obtain ⟨size, each⟩ := (Ty.alike_union_iff differT.nodup differS.nodup).1 turned
  exact caseSetsMatch_of_forall differS.oneShapePerKind known size each

end Sets

/-! ## Records -/

/-- The names that both records have. -/
def sharedNames (a b : Record) : List String := a.properties.keys.filter b.properties.contains

theorem mem_sharedNames {a b : Record} {name : String} :
    name ∈ sharedNames a b ↔ name ∈ a.properties.keys ∧ name ∈ b.properties.keys := by
  rw [sharedNames, List.mem_filter, OrderedMap.contains_iff]

theorem length_sharedNames_comm (a b : Record) :
    (sharedNames a b).length = (sharedNames b a).length := by
  refine length_eq_of_nodup (a.properties.nodup.filter _) (b.properties.nodup.filter _) fun name => ?_
  show name ∈ sharedNames a b ↔ name ∈ sharedNames b a
  rw [mem_sharedNames, mem_sharedNames, and_comm]

theorem length_sharedNames_le (a b : Record) : (sharedNames a b).length ≤ a.size := by
  have fewer := List.length_filter_le b.properties.contains a.properties.keys
  rw [OrderedMap.keys, List.length_map] at fewer
  exact fewer

/-- The types of a property have the same cases in both records. -/
def CasesMatch (g : Graph) (a b : Record) (name : String) : Prop :=
  ∀ p q, a.property? name = some p → b.property? name = some q →
    g.caseSetsMatch (g.cases p.type) (g.cases q.type) = true

theorem exists_propertyMatches {a b : Record} {name : String} (shared : name ∈ sharedNames a b) :
    ∃ answer, g.propertyMatches a b name = .ok answer ∧ (answer = true ↔ g.CasesMatch a b name) := by
  obtain ⟨inA, inB⟩ := mem_sharedNames.1 shared
  obtain ⟨p, foundP⟩ := OrderedMap.mem_keys_iff.1 inA
  obtain ⟨q, foundQ⟩ := OrderedMap.mem_keys_iff.1 inB
  have propertyA : a.property? name = some p := foundP
  have propertyB : b.property? name = some q := foundQ
  unfold propertyMatches CasesMatch
  rw [propertyA, propertyB]
  refine ⟨_, rfl, ?_⟩
  rw [Bool.or_eq_true, Bool.and_eq_true]
  constructor
  · rintro matched _ _ ⟨⟩ ⟨⟩
    exact matched.elim (fun both => caseSetsMatch_of_isEmpty both.1 both.2) id
  · exact fun matched => .inr (matched p q rfl rfl)

theorem propertiesMatch_iff {a b : Record} {names : List String}
    (shared : ∀ name ∈ names, name ∈ sharedNames a b) :
    g.propertiesMatch a b names = .ok true ↔ ∀ name ∈ names, g.CasesMatch a b name := by
  induction names with
  | nil => simp [propertiesMatch]
  | cons name rest ih =>
    have later := ih fun other listed => shared other (List.mem_cons_of_mem _ listed)
    obtain ⟨answer, found, decides⟩ := exists_propertyMatches (g := g) (shared name List.mem_cons_self)
    rw [List.forall_mem_cons, ← decides, ← later, propertiesMatch, found]
    cases answer with
    | true => exact (and_iff_right rfl).symm
    | false => simp [bind, Except.bind]

/-- The budget of the smaller record is kept when it shares enough names with the larger one. -/
theorem overlap_iff {larger smaller : Record} (close : 3 * larger.size ≤ 4 * smaller.size)
    (matched : Except MergeFault Bool) :
    (do
      let budget ← faultBudget smaller larger
      if budget < smaller.size - (sharedNames smaller larger).length then .ok false else matched) =
        .ok true ↔
      requiredOverlap larger.size ≤ (sharedNames smaller larger).length ∧ matched = .ok true := by
  have enough : requiredOverlap larger.size ≤ smaller.size := by
    unfold requiredOverlap
    omega
  have few : (sharedNames smaller larger).length ≤ smaller.size := length_sharedNames_le smaller larger
  have budget : faultBudget smaller larger = .ok (smaller.size - requiredOverlap larger.size) :=
    if_neg (Nat.not_lt.2 enough)
  simp only [budget, bind, Except.bind]
  by_cases shares : requiredOverlap larger.size ≤ (sharedNames smaller larger).length
  · rw [if_neg (by omega), and_iff_right shares]
  · rw [if_pos (by omega)]
    simp [shares]

/-- Two records that are close in size may be samples of one shape when they share three quarters of the
names of the larger, and the types of every shared property have the same cases. -/
theorem canCombine_iff {a b : Record} :
    g.canCombine onlySame a b = .ok true ↔ sizesDiffer onlySame a.size b.size = false ∧
      requiredOverlap (max a.size b.size) ≤ (sharedNames a b).length ∧
      ∀ name ∈ sharedNames a b, g.CasesMatch a b name := by
  rw [canCombine_eq]
  cases sizes : sizesDiffer onlySame a.size b.size with
  | true => simp
  | false =>
    obtain ⟨closeA, closeB⟩ := close_of_sizesDiffer onlySame sizes
    rw [if_neg Bool.false_ne_true, and_iff_right rfl]
    by_cases larger : b.size < a.size
    · have turned : ∀ name ∈ sharedNames b a, name ∈ sharedNames a b := fun name listed =>
        mem_sharedNames.2 (mem_sharedNames.1 listed).symm
      simp only [if_pos larger]
      have each : g.propertiesMatch a b (b.properties.keys.filter a.properties.contains) = .ok true ↔
          ∀ name ∈ sharedNames b a, g.CasesMatch a b name := propertiesMatch_iff turned
      refine (overlap_iff closeB _).trans ?_
      rw [each, length_sharedNames_comm, Nat.max_eq_left (Nat.le_of_lt larger)]
      simp only [mem_sharedNames, and_comm]
    · simp only [if_neg larger]
      refine (overlap_iff closeA _).trans ?_
      rw [Nat.max_eq_right (Nat.not_lt.1 larger)]
      exact and_congr_right fun _ => propertiesMatch_iff fun _ => id

theorem sizesDiffer_comm (m n : Nat) : sizesDiffer onlySame m n = sizesDiffer onlySame n m := by
  unfold sizesDiffer
  split
  · simp only [ne_comm]
  · rw [Bool.or_comm]

/-- It does not matter which record comes first if it does not for the cases of their properties. -/
theorem canCombine_symm {a b : Record} (turn : ∀ name, g.CasesMatch a b name → g.CasesMatch b a name)
    (combines : g.canCombine onlySame a b = .ok true) : g.canCombine onlySame b a = .ok true := by
  obtain ⟨sizes, overlap, cases⟩ := canCombine_iff.1 combines
  refine canCombine_iff.2 ⟨?_, ?_, fun name shared => turn name (cases name ?_)⟩
  · rw [sizesDiffer_comm, sizes]
  · rw [length_sharedNames_comm, Nat.max_comm]
    exact overlap
  · exact mem_sharedNames.2 (mem_sharedNames.1 shared).symm

/-! ## Similar records -/

variable {options : SearchOptions} {c d : Ref}

/-- Two references to records that a search may put into one clique, the first as a prototype. -/
def Similar (g : Graph) (onlySame : Bool) (c d : Ref) : Prop :=
  g.sameShape false c d = true ∨ g.Samples onlySame c d

/-- The cases of each property of the record differ in kind. -/
def CasesDiffer (g : Graph) (c : Ref) : Prop :=
  ∀ record name p, g.record? c = some record → record.property? name = some p →
    g.KindsDiffer (g.cases p.type)

theorem Samples.symm (differC : g.CasesDiffer c) (differD : g.CasesDiffer d)
    (samples : g.Samples onlySame c d) : g.Samples onlySame d c := by
  obtain ⟨a, b, foundA, foundB, combines⟩ := samples
  refine ⟨b, a, foundB, foundA, canCombine_symm (fun name matched q p foundQ foundP => ?_) combines⟩
  exact caseSetsMatch_symm (differC a name p foundA foundP) (differD b name q foundB foundQ)
    (fun _ => isSome_kind?_of_mem_cases) (matched p q foundP foundQ)

theorem Similar.symm (differC : g.CasesDiffer c) (differD : g.CasesDiffer d)
    (similar : g.Similar onlySame c d) : g.Similar onlySame d c :=
  similar.imp sameShape_symm (Samples.symm differC differD)

end Graph

/-! ## A search that finds nothing -/

namespace Clique

variable {g : Graph} {onlySame : Bool} {clique final : Clique} {candidates left : List Candidate}

/-- The second candidate does not match the first. -/
structure Unlike (g : Graph) (onlySame : Bool) (anchor candidate : Candidate) : Prop where
  shape : g.sameShape false anchor.1 candidate.1 ≠ true
  sample : g.canCombine onlySame anchor.2 candidate.2 ≠ .ok true

theorem join?_eq_none_iff {candidate : Candidate} :
    join? g onlySame clique candidate = .ok none ↔
      ∀ anchor ∈ clique.prototypes, Unlike g onlySame anchor candidate := by
  constructor
  · intro passed anchor listed
    obtain ⟨shape, sample⟩ := join?_eq_none passed anchor listed
    exact ⟨shape, by simp [sample]⟩
  · intro unlike
    obtain ⟨larger, joined⟩ := exists_join? g onlySame clique candidate
    cases larger with
    | none => exact joined
    | some larger =>
      rcases (join?_eq_some joined).2 with ⟨anchor, listed, same, _⟩ | ⟨anchor, listed, combines, _⟩
      · exact absurd same (unlike anchor listed).shape
      · exact absurd combines (unlike anchor listed).sample

/-- A clique that no candidate matches leaves all of them. -/
theorem grow_of_unlike
    (unlike : ∀ anchor ∈ clique.prototypes, ∀ candidate ∈ candidates, Unlike g onlySame anchor candidate) :
    grow g onlySame clique candidates = .ok (clique, candidates) := by
  induction candidates with
  | nil => rfl
  | cons candidate rest ih =>
    have passed : join? g onlySame clique candidate = .ok none :=
      join?_eq_none_iff.2 fun anchor listed => unlike anchor listed candidate List.mem_cons_self
    have later := ih fun anchor listed other inside =>
      unlike anchor listed other (List.mem_cons_of_mem _ inside)
    rw [grow, passed, later]

/-- If a clique has not grown, it left all candidates, and none of them matches it. -/
theorem unlike_of_grow (grown : grow g onlySame clique candidates = .ok (final, left))
    (short : final.members.length ≤ clique.members.length) : left = candidates ∧
      ∀ anchor ∈ clique.prototypes, ∀ candidate ∈ candidates, Unlike g onlySame anchor candidate := by
  induction candidates generalizing left with
  | nil =>
    cases grown
    simp
  | cons candidate rest ih =>
    rcases grow_cons grown with ⟨larger, joined, inner⟩ | ⟨passed, others, rfl, inner⟩
    · have longer := (prefix_grow inner).length_le
      rw [(join?_eq_some joined).1, List.length_append, List.length_singleton] at longer
      omega
    · obtain ⟨rfl, unlike⟩ := ih inner
      refine ⟨rfl, fun anchor listed => List.forall_mem_cons.2 ⟨?_, unlike anchor listed⟩⟩
      exact join?_eq_none_iff.1 passed anchor listed

/-- A search finds nothing just when no candidate matches an earlier one. -/
theorem search_eq_nil_iff :
    search g onlySame candidates = .ok [] ↔ candidates.Pairwise (Unlike g onlySame) := by
  induction candidates with
  | nil => simp [search]
  | cons seed rest ih =>
    rw [search_cons, List.pairwise_cons, ← ih]
    constructor
    · intro found
      obtain ⟨final, left, grown⟩ := exists_grow g onlySame (ofSeed seed) rest
      rw [grown] at found
      obtain ⟨others, searched, nothing⟩ := others_of_search found
      split at nothing
      · cases nothing
      · rename_i alone
        obtain ⟨rfl, unlike⟩ := unlike_of_grow grown (Nat.not_lt.1 alone)
        exact ⟨unlike seed List.mem_cons_self, nothing ▸ searched⟩
    · rintro ⟨unlike, searched⟩
      have grown : grow g onlySame (ofSeed seed) rest = .ok (ofSeed seed, rest) := by
        apply grow_of_unlike
        intro anchor listed
        rw [List.mem_singleton.1 listed]
        exact unlike
      rw [grown]
      simp only [searched]
      rfl

end Clique

/-- In a list without repetitions, two elements stand in one order. -/
theorem not_sublist_swap {α : Type} {xs : List α} {a b : α} (distinct : xs.Nodup)
    (one : [a, b].Sublist xs) : ¬ [b, a].Sublist xs := by
  intro other
  induction xs with
  | nil => cases one
  | cons x rest ih =>
    rw [List.nodup_cons] at distinct
    cases one with
    | cons _ before =>
      cases other with
      | cons _ after => exact ih distinct.2 before after
      | cons_cons _ after => exact distinct.1 (before.subset (List.mem_cons_of_mem _ List.mem_cons_self))
    | cons_cons _ before =>
      cases other with
      | cons _ after => exact distinct.1 (after.subset (List.mem_cons_of_mem _ List.mem_cons_self))
      | cons_cons _ after => exact distinct.1 (after.subset List.mem_cons_self)

namespace Graph

variable {g : Graph} {options : SearchOptions}

theorem unlike_iff {x y : Candidate} {onlySame : Bool} (recordX : g.record? x.1 = some x.2)
    (recordY : g.record? y.1 = some y.2) :
    Clique.Unlike g onlySame x y ↔ ¬ g.Similar onlySame x.1 y.1 := by
  constructor
  · rintro ⟨shape, sample⟩ (same | ⟨a, b, foundA, foundB, combines⟩)
    · exact shape same
    · rw [recordX] at foundA
      rw [recordY] at foundB
      cases foundA
      cases foundB
      exact sample combines
  · intro differ
    refine ⟨fun same => differ (.inl same), fun combines => ?_⟩
    exact differ (.inr ⟨_, _, recordX, recordY, combines⟩)

/-- Candidates stand in the order in which their records are reached. -/
theorem pair_of_order {candidates : List Candidate} (order : (candidates.map Prod.fst).Sublist g.reachable)
    {c d : Candidate} (inC : c ∈ candidates) (inD : d ∈ candidates)
    (before : [c.1, d.1].Sublist g.reachable) : [c, d].Sublist candidates := by
  have apart : c ≠ d := by
    rintro rfl
    exact not_sublist_swap g.nodup_reachable before before
  rcases pair_sublist_or inC inD apart with pair | turned
  · exact pair
  · exact absurd ((turned.map Prod.fst).trans order) (not_sublist_swap g.nodup_reachable before)

/-- A search finds nothing just when no eligible record is similar to an earlier one. -/
theorem similarityCliques_eq_nil_iff : g.similarityCliques options = .ok [] ↔
    ∀ c d, g.Eligible options c → g.Eligible options d → [c, d].Sublist g.reachable →
      ¬ g.Similar options.onlySame c d := by
  obtain ⟨candidates, listed, sub, types, all⟩ := g.candidates_spec options
  have whole : g.similarityCliques options = Clique.search g options.onlySame candidates := by
    rw [similarityCliques, listed]
    rfl
  -- a search visits its candidates in the order in which they are reached
  have order := sub.trans (List.filter_sublist : (g.reachableOf .record).Sublist g.reachable)
  have records : ∀ entry ∈ candidates, g.record? entry.1 = some entry.2 :=
    fun entry member => g.record?_eq_some_iff.2 (types entry member)
  rw [whole, Clique.search_eq_nil_iff, List.pairwise_iff_forall_sublist]
  constructor
  · intro unlike c d eligibleC eligibleD before
    obtain ⟨x, inX, rfl⟩ := List.mem_map.1 (all c eligibleC)
    obtain ⟨y, inY, rfl⟩ := List.mem_map.1 (all d eligibleD)
    exact (unlike_iff (records x inX) (records y inY)).1 (unlike (pair_of_order order inX inY before))
  · intro differ x y pair
    have inX : x ∈ candidates := pair.subset List.mem_cons_self
    have inY : y ∈ candidates := pair.subset (List.mem_cons_of_mem _ List.mem_cons_self)
    have eligible : ∀ entry ∈ candidates, g.Eligible options entry.1 := fun entry member =>
      g.eligible_of_mem_candidates listed (List.mem_map_of_mem member)
    refine (unlike_iff (records x inX) (records y inY)).2 ?_
    exact differ x.1 y.1 (eligible x inX) (eligible y inY) ((pair.map Prod.fst).trans order)

/-- If a search finds nothing, no two eligible records are similar, whichever of them is visited first,
where the cases of each of their properties differ in kind. -/
theorem not_similar_of_nil (nothing : g.similarityCliques options = .ok []) {c d : Ref}
    (first : g.Eligible options c) (second : g.Eligible options d) (apart : c ≠ d)
    (differC : g.CasesDiffer c) (differD : g.CasesDiffer d) : ¬ g.Similar options.onlySame c d := by
  intro similar
  rcases pair_sublist_or first.1 second.1 apart with before | after
  · exact similarityCliques_eq_nil_iff.1 nothing c d first second before similar
  · exact similarityCliques_eq_nil_iff.1 nothing d c second first after (similar.symm differC differD)

end Graph

end SchemaGraph
