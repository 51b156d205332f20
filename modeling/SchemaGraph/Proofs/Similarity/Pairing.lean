import Mathlib
import SchemaGraph.Proofs.Similarity.Anchors
/-!
# Proofs.Similarity.Pairing -- when sets of cases that match can be paired up

Two sets of types pair up when there is a bijection between them that takes every type to one of its
shape (`Graph.PairUp`). Comparing two sets of cases looks for a type in the second set by its kind, and
so sees one type of each kind. Cases come from unions at any depth, and only the members of one union
differ in kind, so kinds may repeat among them. Then the comparison can go wrong both ways: types of one
kind and different shapes are not found, and one type can be found twice while another is not asked for.

Sets that pair up are found to match just when the types of one kind in the second set have one shape
(`Graph.caseSetsMatch_iff_of_pairUp`). Sets that are found to match pair up just when this is so and they
have types of each kind in the same number (`Graph.pairUp_iff_of_caseSetsMatch`). Where the cases of the
first differ in kind, it is one and the same (`Graph.KindsDiffer.caseSetsMatch_iff_pairUp`).
-/

namespace SchemaGraph

set_option autoImplicit false

/-- Lists without repetitions are in bijection along a relation just when the second can be arranged so
that it stands in the relation to the first, element by element. -/
theorem exists_equiv_iff_arranged {α : Type} [DecidableEq α] (rel : α → α → Prop) {xs ys : List α}
    (distinct : xs.Nodup) (distinct' : ys.Nodup) :
    (∃ pairing : {x // x ∈ xs} ≃ {y // y ∈ ys}, ∀ x, rel x.1 (pairing x).1) ↔
      ∃ arranged, List.Forall₂ rel xs arranged ∧ arranged.Perm ys := by
  constructor
  · rintro ⟨pairing, related⟩
    refine ⟨xs.attach.map fun x => (pairing x).1, ?_, ?_⟩
    · have each : List.Forall₂ rel (xs.attach.map Subtype.val) (xs.attach.map fun x => (pairing x).1) := by
        rw [List.forall₂_map_left_iff, List.forall₂_map_right_iff, List.forall₂_same]
        exact fun x _ => related x
      rwa [List.attach_map_subtype_val] at each
    · have images : (xs.attach.map fun x => (pairing x).1).Nodup :=
        (List.nodup_attach.2 distinct).map (Subtype.val_injective.comp pairing.injective)
      refine (List.perm_ext_iff_of_nodup images distinct').2 fun y => ?_
      rw [List.mem_map]
      constructor
      · rintro ⟨x, _, rfl⟩
        exact (pairing x).2
      · intro listed
        refine ⟨pairing.symm ⟨y, listed⟩, List.mem_attach _ _, ?_⟩
        rw [Equiv.apply_symm_apply]
  · rintro ⟨arranged, each, same⟩
    have distinct'' : arranged.Nodup := same.nodup_iff.2 distinct'
    let places := (distinct.getEquiv xs).symm.trans (finCongr each.length_eq)
    let images := (distinct''.getEquiv arranged).trans (Equiv.subtypeEquivRight fun y => same.mem_iff)
    refine ⟨places.trans images, fun x => ?_⟩
    obtain ⟨i, rfl⟩ := (distinct.getEquiv xs).surjective x
    have here : rel (xs.get i) (arranged.get (finCongr each.length_eq i)) := each.get _ _
    simpa [places, images] using here

namespace Graph

variable {g : Graph} {s t : OrderedSet Ref}

/-! ## Pairs of types -/

/-- There is a bijection between the two sets that takes every type to one of its shape. -/
def PairUp (g : Graph) (s t : OrderedSet Ref) : Prop :=
  ∃ pairing : {m // m ∈ s} ≃ {n // n ∈ t}, ∀ m, g.sameShape false m.1 (pairing m).1 = true

/-- The sets have types of each kind in the same number. -/
def SameKinds (g : Graph) (s t : OrderedSet Ref) : Prop :=
  (s.toList.map g.kind?).Perm (t.toList.map g.kind?)

theorem pairUp_iff_arranged : g.PairUp s t ↔
    ∃ arranged, List.Forall₂ (fun m n => g.sameShape false m n = true) s.toList arranged ∧
      arranged.Perm t.toList :=
  exists_equiv_iff_arranged (fun m n => g.sameShape false m n = true) s.nodup t.nodup

theorem PairUp.refl (s : OrderedSet Ref) : g.PairUp s s :=
  ⟨Equiv.refl _, fun m => sameShape_refl m.1⟩

theorem PairUp.symm (pairs : g.PairUp s t) : g.PairUp t s := by
  obtain ⟨pairing, same⟩ := pairs
  refine ⟨pairing.symm, fun n => sameShape_symm ?_⟩
  have found := same (pairing.symm n)
  rwa [Equiv.apply_symm_apply] at found

theorem PairUp.exists_right (pairs : g.PairUp s t) {m : Ref} (listed : m ∈ s) :
    ∃ n ∈ t, g.sameShape false m n = true := by
  obtain ⟨pairing, same⟩ := pairs
  exact ⟨(pairing ⟨m, listed⟩).1, (pairing ⟨m, listed⟩).2, same ⟨m, listed⟩⟩

theorem PairUp.sameKinds (pairs : g.PairUp s t) : g.SameKinds s t := by
  obtain ⟨arranged, each, same⟩ := pairUp_iff_arranged.1 pairs
  have kinds : s.toList.map g.kind? = arranged.map g.kind? :=
    map_eq_map_of_forall₂ each fun _ _ _ _ => kind?_of_sameShape
  rw [SameKinds, kinds]
  exact same.map g.kind?

theorem SameKinds.size_eq (kinds : g.SameKinds s t) : s.size = t.size := by
  simpa [OrderedSet.size] using kinds.length_eq

theorem KindsDiffer.of_sameKinds (differ : g.KindsDiffer s) (kinds : g.SameKinds s t) :
    g.KindsDiffer t :=
  List.inj_on_of_nodup_map (kinds.nodup_iff.1 differ.nodup)

/-! ## What a comparison finds -/

/-- Types of one kind are compared with one type. -/
theorem sameShape_of_caseMatches {m n : Ref} (kinds : g.kind? m = g.kind? n)
    (matchedM : g.caseMatches t m = true) (matchedN : g.caseMatches t n = true) :
    g.sameShape false m n = true := by
  have counterpart : ∀ {r : Ref}, g.caseMatches t r = true → ∃ other,
      (g.kind? r).bind (g.counterpart? false t.toList) = some other ∧ g.sameShape false r other = true := by
    intro r matched
    unfold caseMatches at matched
    split at matched
    · rename_i member other found
      obtain ⟨kind, kindR, found⟩ := Option.bind_eq_some_iff.1 found
      obtain ⟨last, found, paired⟩ := Option.bind_eq_some_iff.1 found
      cases paired
      exact ⟨other, by rw [kindR, Option.bind_some, found], matched⟩
    · cases matched
  obtain ⟨other, foundM, sameM⟩ := counterpart matchedM
  obtain ⟨other', foundN, sameN⟩ := counterpart matchedN
  rw [kinds, foundN] at foundM
  cases foundM
  exact sameShape_trans sameM (sameShape_symm sameN)

/-- Where the types of one kind in the second set have one shape, sets of one size match when every type of
the first has its shape in the second. -/
theorem OneShapePerKind.caseSetsMatch_iff (uniform : g.OneShapePerKind t)
    (known : ∀ m ∈ s, (g.kind? m).isSome) : g.caseSetsMatch s t = true ↔
      s.size = t.size ∧ ∀ m ∈ s, ∃ n ∈ t, g.sameShape false m n = true := by
  constructor
  · intro matched
    obtain ⟨size, each⟩ := exists_of_caseSetsMatch matched
    refine ⟨size, fun m listed => ?_⟩
    obtain ⟨n, inside, _, same⟩ := each m listed
    exact ⟨n, inside, same⟩
  · rintro ⟨size, each⟩
    refine caseSetsMatch_of_forall uniform known size fun m listed => ?_
    obtain ⟨n, inside, same⟩ := each m listed
    exact ⟨n, inside, kind?_of_sameShape same, same⟩

/-- Sets that pair up match just when the types of one kind in the second have one shape. -/
theorem caseSetsMatch_iff_of_pairUp (known : ∀ m ∈ s, (g.kind? m).isSome) (pairs : g.PairUp s t) :
    g.caseSetsMatch s t = true ↔ g.OneShapePerKind t := by
  constructor
  · intro matched a inA b inB kinds
    rw [caseSetsMatch, Bool.and_eq_true, decide_eq_true_eq] at matched
    obtain ⟨m, inM, sameA⟩ := pairs.symm.exists_right inA
    obtain ⟨n, inN, sameB⟩ := pairs.symm.exists_right inB
    have kinds' : g.kind? m = g.kind? n := by
      rw [← kind?_of_sameShape sameA, kinds, kind?_of_sameShape sameB]
    have between := sameShape_of_caseMatches kinds' (List.all_eq_true.1 matched.2 m inM)
      (List.all_eq_true.1 matched.2 n inN)
    exact sameShape_trans sameA (sameShape_trans between (sameShape_symm sameB))
  · intro uniform
    refine (uniform.caseSetsMatch_iff known).2 ⟨pairs.sameKinds.size_eq, fun m listed => ?_⟩
    exact pairs.exists_right listed

/-- Sets that match pair up just when the types of one kind in the second have one shape, and there are as
many of them in the first. -/
theorem pairUp_iff_of_caseSetsMatch (known : ∀ m ∈ s, (g.kind? m).isSome)
    (matched : g.caseSetsMatch s t = true) : g.PairUp s t ↔ g.OneShapePerKind t ∧ g.SameKinds s t := by
  constructor
  · exact fun pairs => ⟨(caseSetsMatch_iff_of_pairUp known pairs).1 matched, pairs.sameKinds⟩
  · rintro ⟨uniform, kinds⟩
    obtain ⟨_, each⟩ := exists_of_caseSetsMatch matched
    -- arrange the second set in the order of the kinds of the first
    have own : List.Forall₂ (fun kind n => n ∈ t ∧ kind = g.kind? n) (t.toList.map g.kind?) t.toList := by
      rw [List.forall₂_map_left_iff, List.forall₂_same]
      exact fun n listed => ⟨listed, rfl⟩
    obtain ⟨arranged, inOrder, same⟩ := List.perm_comp_forall₂ kinds own
    rw [List.forall₂_map_left_iff] at inOrder
    have members := (List.forall₂_and_left s.toList arranged).2 ⟨fun m => (id : m ∈ s → m ∈ s), inOrder⟩
    refine pairUp_iff_arranged.2 ⟨arranged, members.imp ?_, same⟩
    rintro m n ⟨listed, inside, kind⟩
    obtain ⟨found, inside', _, shape⟩ := each m listed
    exact sameShape_trans shape (uniform found inside' n inside ((kind?_of_sameShape shape).symm.trans kind))

/-- Where the types of the first set differ in kind, a set that it matches has its kinds. -/
theorem KindsDiffer.sameKinds (differ : g.KindsDiffer s) (matched : g.caseSetsMatch s t = true) :
    g.SameKinds s t := by
  obtain ⟨size, each⟩ := exists_of_caseSetsMatch matched
  have inside : s.toList.map g.kind? ⊆ t.toList.map g.kind? := by
    intro kind listed
    obtain ⟨m, inM, rfl⟩ := List.mem_map.1 listed
    obtain ⟨n, inN, kinds, _⟩ := each m inM
    exact List.mem_map.2 ⟨n, inN, kinds.symm⟩
  refine (List.subperm_of_subset differ.nodup inside).perm_of_length_le ?_
  rw [List.length_map, List.length_map]
  exact Nat.le_of_eq size.symm

/-- A set whose types differ in kind matches what it pairs up with. -/
theorem KindsDiffer.caseSetsMatch_iff_pairUp (differ : g.KindsDiffer s)
    (known : ∀ m ∈ s, (g.kind? m).isSome) : g.caseSetsMatch s t = true ↔ g.PairUp s t := by
  constructor
  · intro matched
    have kinds := differ.sameKinds matched
    exact (pairUp_iff_of_caseSetsMatch known matched).2 ⟨(differ.of_sameKinds kinds).oneShapePerKind, kinds⟩
  · intro pairs
    exact (caseSetsMatch_iff_of_pairUp known pairs).2 (differ.of_sameKinds pairs.sameKinds).oneShapePerKind

/-! ## Sets of cases -/

theorem caseSetsMatch?_eq_some (inS : ∀ m ∈ s, m < g.size) (inT : ∀ n ∈ t, n < g.size) :
    g.caseSetsMatch? s t = some (g.caseSetsMatch s t) := by
  have hasS : ∀ m ∈ s.toList, g.has m = true := fun m listed => decide_eq_true (inS m listed)
  have hasT : t.toList.all g.has = true :=
    List.all_eq_true.2 fun n listed => decide_eq_true (inT n listed)
  unfold caseSetsMatch? caseSetsMatch
  by_cases size : s.size = t.size
  · rw [if_pos size, if_pos hasT, decide_eq_true size, Bool.true_and]
    cases found : s.toList.find? fun r => !(g.has r && g.caseMatches t r) with
    | none =>
      have each : s.toList.all (g.caseMatches t) = true := by
        refine List.all_eq_true.2 fun m listed => ?_
        simpa [hasS m listed] using List.find?_eq_none.1 found m listed
      rw [each]
    | some r =>
      have listed := List.mem_of_find?_eq_some found
      have fails : g.caseMatches t r = false := by
        simpa [hasS r listed] using List.find?_some found
      have differ : s.toList.all (g.caseMatches t) = false :=
        List.all_eq_false.2 ⟨r, listed, by simp [fails]⟩
      simp only [hasS r listed, if_true, differ]
  · simp [size]

theorem lt_of_mem_cases {r m : Ref} (listed : m ∈ g.cases r) : m < g.size := by
  obtain ⟨kind, found⟩ := Option.isSome_iff_exists.1 (isSome_kind?_of_mem_cases listed)
  obtain ⟨type, there, _⟩ := g.exists_type?_of_kind? found
  exact g.lt_of_type? there

/-- Comparing cases comes to no reference that designates nothing. -/
theorem caseSetsMatch?_cases {p q : Ref} : g.caseSetsMatch? (g.cases p) (g.cases q) =
    some (g.caseSetsMatch (g.cases p) (g.cases q)) :=
  caseSetsMatch?_eq_some (fun _ => lt_of_mem_cases) fun _ => lt_of_mem_cases

theorem size_eq_of_mem_iff {s' : OrderedSet Ref} (same : ∀ m, m ∈ s' ↔ m ∈ s) : s'.size = s.size :=
  length_eq_of_nodup s'.nodup s.nodup same

/-- Where the types of one kind have one shape in the second set, the order of elements does not matter. -/
theorem OneShapePerKind.caseSetsMatch_congr (uniform : g.OneShapePerKind t) {s' t' : OrderedSet Ref}
    (known : ∀ m ∈ s, (g.kind? m).isSome) (sameS : ∀ m, m ∈ s' ↔ m ∈ s) (sameT : ∀ n, n ∈ t' ↔ n ∈ t) :
    g.caseSetsMatch s' t' = g.caseSetsMatch s t := by
  have uniform' : g.OneShapePerKind t' := fun a inA b inB =>
    uniform a ((sameT a).1 inA) b ((sameT b).1 inB)
  rw [Bool.eq_iff_iff, uniform.caseSetsMatch_iff known,
    uniform'.caseSetsMatch_iff fun m listed => known m ((sameS m).1 listed), size_eq_of_mem_iff sameS,
    size_eq_of_mem_iff sameT]
  simp only [sameS, sameT]

/-- Comparing the cases of two types always has an answer. If the cases pair up, it says so just when those
of one kind in the second set have one shape; in particular for the cases of a type and themselves. If it
says that they match, they pair up just when this is so and each kind is there in the same number. Where
the cases of the first differ in kind, it says whether they pair up; where those of both do, it is the same
the other way round. It does not depend on the order of the cases if those of one kind in the second set
have one shape. -/
theorem case_sets_pair_up (g : Graph) (p q : Ref) :
    ∃ answer, g.caseSetsMatch? (g.cases p) (g.cases q) = some answer ∧
      (g.PairUp (g.cases p) (g.cases q) → (answer = true ↔ g.OneShapePerKind (g.cases q))) ∧
      (g.caseSetsMatch? (g.cases p) (g.cases p) = some true ↔ g.OneShapePerKind (g.cases p)) ∧
      (answer = true → (g.PairUp (g.cases p) (g.cases q) ↔
        g.OneShapePerKind (g.cases q) ∧ g.SameKinds (g.cases p) (g.cases q))) ∧
      (g.KindsDiffer (g.cases p) → (answer = true ↔ g.PairUp (g.cases p) (g.cases q))) ∧
      (g.KindsDiffer (g.cases p) → g.KindsDiffer (g.cases q) →
        g.caseSetsMatch? (g.cases q) (g.cases p) = some answer) ∧
      (g.OneShapePerKind (g.cases q) → ∀ s t, (∀ m, m ∈ s ↔ m ∈ g.cases p) →
        (∀ n, n ∈ t ↔ n ∈ g.cases q) → g.caseSetsMatch? s t = some answer) := by
  have known : ∀ {a}, ∀ m ∈ g.cases a, (g.kind? m).isSome := fun _ => isSome_kind?_of_mem_cases
  refine ⟨g.caseSetsMatch (g.cases p) (g.cases q), caseSetsMatch?_cases,
    caseSetsMatch_iff_of_pairUp known, ?_,
    pairUp_iff_of_caseSetsMatch known, ?_, ?_, ?_⟩
  · rw [caseSetsMatch?_cases, Option.some.injEq]
    exact caseSetsMatch_iff_of_pairUp known (.refl _)
  · exact fun differ => differ.caseSetsMatch_iff_pairUp known
  · intro differP differQ
    rw [caseSetsMatch?_cases, Option.some.injEq, Bool.eq_iff_iff, differQ.caseSetsMatch_iff_pairUp known,
      differP.caseSetsMatch_iff_pairUp known]
    exact ⟨PairUp.symm, PairUp.symm⟩
  · intro uniform s t sameS sameT
    rw [← uniform.caseSetsMatch_congr known sameS sameT]
    exact caseSetsMatch?_eq_some (fun m listed => lt_of_mem_cases ((sameS m).1 listed))
      fun n listed => lt_of_mem_cases ((sameT n).1 listed)

/-- A text or an integer, and an integer or a text. -/
def turnedCases : Graph :=
  ⟨#[⟨.primitive .string, .empty⟩, ⟨.primitive .integer, .empty⟩, ⟨.union (.ofList [0, 1]), .empty⟩,
      ⟨.primitive .string, .empty⟩, ⟨.union (.ofList [1, 3]), .empty⟩],
    .empty, firstFault?_eq_none_iff.1 (by decide +kernel)⟩

/-- The cases pair up in another order, and comparing them says so both ways. -/
theorem turnedCases_pair_up : turnedCases.PairUp (turnedCases.cases 2) (turnedCases.cases 4) ∧
    turnedCases.caseSetsMatch? (turnedCases.cases 4) (turnedCases.cases 2) = some true := by
  have flat : turnedCases.UnionsFlat := unionsFlat_of_lt (by decide)
  have same : turnedCases.caseSetsMatch? (turnedCases.cases 2) (turnedCases.cases 4) = some true := by cbv
  obtain ⟨answer, found, _, _, _, pairs, turned, _⟩ := case_sets_pair_up turnedCases 2 4
  cases same.symm.trans found
  exact ⟨(pairs (flat.kindsDiffer 2)).1 rfl, turned (flat.kindsDiffer 2) (flat.kindsDiffer 4)⟩

/-- A record or an integer, or another record: two of the three cases have one kind. -/
def twoRecords : Graph :=
  ⟨#[⟨.primitive .string, .empty⟩, ⟨.primitive .integer, .empty⟩, .required [("x", 0)] false,
      .required [("x", 1)] false, ⟨.union (.ofList [2, 1]), .empty⟩, ⟨.union (.ofList [4, 3]), .empty⟩],
    .empty, firstFault?_eq_none_iff.1 (by decide +kernel)⟩

/-- Cases pair up with themselves, and comparing them may say that they do not match. -/
theorem cases_do_not_match_themselves : ¬ ∀ (g : Graph) (p q : Ref), g.UnionsEnd →
    (g.caseSetsMatch? (g.cases p) (g.cases q) = some true ↔ g.PairUp (g.cases p) (g.cases q)) := by
  intro decides
  have ends : twoRecords.UnionsEnd := twoRecords.unionsEnd_of_lt (by decide)
  have answer : twoRecords.caseSetsMatch? (twoRecords.cases 5) (twoRecords.cases 5) = some false := by cbv
  have same := (decides twoRecords 5 5 ends).2 (.refl _)
  rw [answer] at same
  cases same

end Graph

end SchemaGraph
