import SchemaGraph.Proofs.Similarity.Pairing
/-!
# Proofs.Similarity.Samples -- when two records may be samples of one shape

A comparison of records tests their sizes, gives the smaller one a budget of names that the larger one
lacks, scans the names of the smaller up to the first above the budget, and then the types of the names
that both have. None of these steps is left in what it decides (`Graph.canCombine_criterion`): the names
that the records share are three quarters of those of the larger one or more. This alone bounds the sizes
and the missing names.

What is left of the order of the records is the comparison of cases. Where no union is a member of a union
the cases of a type differ in kind, and it does not matter which record comes first
(`Graph.canCombine_both_ways`).
-/

namespace SchemaGraph

set_option autoImplicit false

theorem requiredOverlap_le_iff {properties shared : Nat} :
    requiredOverlap properties ≤ shared ↔ 3 * properties ≤ 4 * shared := by
  unfold requiredOverlap
  omega

/-- Where the smaller size is three quarters of the larger or more, sizes differ too much only if they are to
be the same and are not. -/
theorem sizesDiffer_eq_false_iff {onlySame : Bool} {m n : Nat} (close : 3 * max m n ≤ 4 * min m n) :
    sizesDiffer onlySame m n = false ↔ (onlySame = true → m = n) := by
  cases onlySame with
  | true => simp [sizesDiffer]
  | false =>
    simp only [sizesDiffer, Bool.false_eq_true, if_false, Bool.or_eq_false_iff, decide_eq_false_iff_not,
      false_implies, iff_true]
    omega

namespace Graph

variable {g : Graph} {onlySame : Bool} {a b : Record}

/-- Records that share three quarters of the names of the larger pass the test of their sizes and keep the
budget of the smaller. -/
theorem overlap_criterion : sizesDiffer onlySame a.size b.size = false ∧
      requiredOverlap (max a.size b.size) ≤ (sharedNames a b).length ↔
    3 * max a.size b.size ≤ 4 * (sharedNames a b).length ∧ (onlySame = true → a.size = b.size) := by
  rw [requiredOverlap_le_iff, and_comm]
  refine and_congr_right fun overlap => sizesDiffer_eq_false_iff ?_
  have fewerA := length_sharedNames_le a b
  have fewerB := length_sharedNames_le b a
  rw [length_sharedNames_comm] at fewerB
  omega

/-- The types of the names that both records have match up to null: neither type has a case, or comparing
their cases, those of the first record first, says so. -/
theorem forall_casesMatch_iff : (∀ name ∈ sharedNames a b, g.CasesMatch a b name) ↔
    ∀ name p q, a.property? name = some p → b.property? name = some q →
      ((g.cases p.type).isEmpty = true ∧ (g.cases q.type).isEmpty = true) ∨
        g.caseSetsMatch? (g.cases p.type) (g.cases q.type) = some true := by
  simp only [caseSetsMatch?_cases, Option.some.injEq]
  constructor
  · intro matched name p q foundP foundQ
    have shared : name ∈ sharedNames a b :=
      mem_sharedNames.2 ⟨OrderedMap.mem_keys_iff.2 ⟨p, foundP⟩, OrderedMap.mem_keys_iff.2 ⟨q, foundQ⟩⟩
    exact .inr (matched name shared p q foundP foundQ)
  · intro each name _ p q foundP foundQ
    rcases each name p q foundP foundQ with ⟨emptyP, emptyQ⟩ | matched
    · exact caseSetsMatch_of_isEmpty emptyP emptyQ
    · exact matched

/-- Comparing two records never fails. It finds that they may be samples of one shape just when they share
three quarters of the names of the larger or more, have the same number of properties if they are to, and
the types of every property that both have match up to null. -/
theorem canCombine_criterion (g : Graph) (onlySame : Bool) (a b : Record) :
    ∃ answer, g.canCombine onlySame a b = .ok answer ∧
      (answer = true ↔ 3 * max a.size b.size ≤ 4 * (sharedNames a b).length ∧
        (onlySame = true → a.size = b.size) ∧
        ∀ name p q, a.property? name = some p → b.property? name = some q →
          ((g.cases p.type).isEmpty = true ∧ (g.cases q.type).isEmpty = true) ∨
            g.caseSetsMatch? (g.cases p.type) (g.cases q.type) = some true) := by
  obtain ⟨answer, compared⟩ := g.exists_canCombine onlySame a b
  have decided : answer = true ↔ g.canCombine onlySame a b = .ok true := by
    rw [compared, Except.ok.injEq]
  refine ⟨answer, compared, ?_⟩
  rw [decided, canCombine_iff, ← and_assoc, overlap_criterion, and_assoc, forall_casesMatch_iff]

/-! ## Either record first -/

theorem CasesMatch.symm (flat : g.UnionsFlat) {name : String} (matched : g.CasesMatch a b name) :
    g.CasesMatch b a name := by
  intro q p foundQ foundP
  exact caseSetsMatch_symm (flat.kindsDiffer p.type) (flat.kindsDiffer q.type)
    (fun _ => isSome_kind?_of_mem_cases) (matched p q foundP foundQ)

/-- Where no union is a member of a union, comparing two records has one answer, whichever comes first. -/
theorem canCombine_both_ways (g : Graph) (flat : g.UnionsFlat) (onlySame : Bool) (a b : Record) :
    ∃ answer, g.canCombine onlySame a b = .ok answer ∧ g.canCombine onlySame b a = .ok answer := by
  obtain ⟨answer, compared⟩ := g.exists_canCombine onlySame a b
  obtain ⟨turned, compared'⟩ := g.exists_canCombine onlySame b a
  have same : answer = turned := by
    rw [Bool.eq_iff_iff]
    constructor
    · rintro rfl
      simpa [compared'] using canCombine_symm (fun _ => CasesMatch.symm flat) compared
    · rintro rfl
      simpa [compared] using canCombine_symm (fun _ => CasesMatch.symm flat) compared'
  exact ⟨answer, compared, same ▸ compared'⟩

/-- The first record of `restated` and the one that may be a sample of it have one name each that the other
lacks, and cases of the third property in a union on one side only. -/
theorem restated_both_ways : restated.UnionsFlat ∧ ∃ a b, restated.record? 3 = some a ∧
    restated.record? 5 = some b ∧ restated.canCombine false a b = .ok true ∧
      restated.canCombine false b a = .ok true := by
  have flat : restated.UnionsFlat := unionsFlat_of_lt (by decide)
  obtain ⟨a, b, foundA, foundB, compared⟩ : ∃ a b, restated.record? 3 = some a ∧
      restated.record? 5 = some b ∧ restated.canCombine false a b = .ok true := ⟨_, _, rfl, rfl, by cbv⟩
  obtain ⟨answer, compared', turned⟩ := canCombine_both_ways restated flat false a b
  cases compared.symm.trans compared'
  exact ⟨flat, a, b, foundA, foundB, compared, turned⟩

/-- A property of a text, another text or an integer, and one of a text, an integer or a flag. -/
def nestedSamples : Graph :=
  ⟨#[⟨.primitive .string, .empty⟩, ⟨.primitive .string, .empty⟩, ⟨.primitive .integer, .empty⟩,
      ⟨.primitive .bool, .empty⟩, ⟨.union (.ofList [0, 2]), .empty⟩, ⟨.union (.ofList [1, 4]), .empty⟩,
      ⟨.union (.ofList [0, 2, 3]), .empty⟩, .required [("a", 5)] false, .required [("a", 6)] false],
    .ofList [("P", 7), ("Q", 8)], firstFault?_eq_none_iff.1 (by decide +kernel)⟩

/-- With unions in unions it matters which record comes first. -/
example : ∃ a b, nestedSamples.record? 7 = some a ∧ nestedSamples.record? 8 = some b ∧
    nestedSamples.canCombine false a b = .ok true ∧ nestedSamples.canCombine false b a = .ok false :=
  ⟨_, _, rfl, rfl, by cbv, by cbv⟩

end Graph

end SchemaGraph
