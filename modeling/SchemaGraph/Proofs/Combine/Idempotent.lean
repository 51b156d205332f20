import SchemaGraph.Proofs.Combine.Copies
/-!
# Proofs.Combine.Idempotent -- combining what was combined

A run that found cliques goes on until it finds none, or until a round would leave no fewer records
and is discarded. A run that found none copies the graph, and does not search the copy; there is
nothing to be found in it if the cases of each property differ in kind
(`Settings.RoundTo.similarityCliques_eq_nil`). Where nothing is left to be found, combining once more
changes nothing but the places of types (`Settings.combine_twice`).

Both conditions are needed (`Settings.combine_does_not_settle`). The next round may be one that makes
more records than it merges. And cases of one kind may come to be one type in the copy, or be compared in
another order.
-/

namespace SchemaGraph

set_option autoImplicit false

namespace Settings

variable {settings : Settings} {registry : Registry} {g h : Graph}

/-! ## A round without cliques -/

theorem RoundTo.madeFor (round : settings.RoundTo registry g h) : h.MadeFor settings.target := by
  obtain ⟨plan, trace, _, _, _, replaces⟩ := round.exists_plan
  exact replaces.madeFor

theorem RoundTo.exists_copiedTo (round : settings.RoundTo registry g h)
    (nothing : g.similarityCliques settings.search = .ok []) :
    ∃ image, g.CopiedTo settings.target h image := by
  obtain ⟨plan, trace, rfl, searched, _, replaces⟩ := round.exists_plan
  have none : plan.groups = [] := Except.ok.inj (searched.symm.trans nothing)
  exact replaces.exists_copiedTo none

theorem RoundTo.similarityCliques_eq_nil (round : settings.RoundTo registry g h)
    (nothing : g.similarityCliques settings.search = .ok [])
    (differ : ∀ r, g.Eligible settings.search r → g.CasesDiffer r) :
    h.similarityCliques settings.search = .ok [] := by
  obtain ⟨image, copied⟩ := round.exists_copiedTo nothing
  exact copied.relocation.similarityCliques_eq_nil nothing differ

/-- Combining once more, where nothing is found, leaves as many records and the same trees. -/
theorem exists_combine_again (nothing : h.similarityCliques settings.search = .ok [])
    (made : h.MadeFor settings.target) : ∃ again, (settings.combine registry h).result = .ok again ∧
      again.recordCount = h.recordCount ∧ h.SameTops again := by
  obtain ⟨_, again, _, _, result⟩ := settings.exists_combine registry h
  rcases combine_ends result with ⟨_, round⟩ | ⟨some, _⟩
  · obtain ⟨image, copied⟩ := round.exists_copiedTo nothing
    exact ⟨again, result, copied.relocation.recordCount_eq, copied.sameTops made⟩
  · exact absurd nothing some

/-! ## Combining twice -/

/-- A run that found a clique leaves none, or its next round would be discarded. A run that found none
leaves none either, if the cases of each property of an eligible record differ in kind. And a run
that leaves none may be repeated: the second result has as many records, and each name leads to the
same tree. -/
theorem combine_twice (done : (settings.combine registry g).result = .ok h) :
    (g.similarityCliques settings.search ≠ .ok [] →
      h.similarityCliques settings.search = .ok [] ∨ settings.Discards registry h) ∧
    (g.similarityCliques settings.search = .ok [] →
      (∀ r, g.Eligible settings.search r → g.CasesDiffer r) →
      h.similarityCliques settings.search = .ok []) ∧
    (h.similarityCliques settings.search = .ok [] →
      ∃ again, (settings.combine registry h).result = .ok again ∧
        again.recordCount = h.recordCount ∧ h.SameTops again) := by
  refine ⟨fun some => ?_, fun nothing differ => ?_, fun nothing => ?_⟩
  · rcases combine_ends done with ⟨nothing, _⟩ | ⟨_, ended⟩
    · exact absurd nothing some
    · exact ended
  · rcases combine_ends done with ⟨_, round⟩ | ⟨some, _⟩
    · exact round.similarityCliques_eq_nil nothing differ
    · exact absurd nothing some
  · -- the names are sorted by the first run already, if they are to be sorted at all
    refine exists_combine_again nothing ?_
    exact combine_induction_of_first done RoundTo.madeFor fun round _ => round.madeFor

/-- Combining the twins once more leaves seven records again. -/
theorem combine_twins_twice :
    (Settings.standard.combine .standard twins).result = .ok mergedTwins ∧
      ∃ again, (Settings.standard.combine .standard mergedTwins).result = .ok again ∧
        again.recordCount = 7 ∧ mergedTwins.SameTops again := by
  obtain ⟨_, _, repeated⟩ := combine_twice combine_twins
  obtain ⟨again, result, count, tops⟩ := repeated similarityCliques_mergedTwins
  exact ⟨combine_twins, again, result, count.trans recordCount_twins.2, tops⟩

/-! ## What is left over -/

/-- Combining once is enough for the graph: nothing is left to be found, and combining once more
leaves as many records and the same trees. -/
def Settles (settings : Settings) (registry : Registry) (g : Graph) : Prop :=
  ∀ h again, (settings.combine registry g).result = .ok h →
    (settings.combine registry h).result = .ok again →
    h.similarityCliques settings.search = .ok [] ∧ again.recordCount = h.recordCount ∧ h.SameTops again

theorem combine_of_nothing (nothing : g.similarityCliques settings.search = .ok [])
    (made : (settings.round registry g []).result = .ok h) :
    (settings.combine registry g).result = .ok h := by
  rw [result_combine nothing made, if_pos rfl]

theorem not_settles {clique : List Ref} {others : List (List Ref)}
    (done : (settings.combine registry g).result = .ok h)
    (left : h.similarityCliques settings.search = .ok (clique :: others)) :
    ¬ settings.Settles registry g := by
  intro settles
  obtain ⟨_, again, _, _, result⟩ := settings.exists_combine registry h
  have nothing := (settles h again done result).1
  rw [left] at nothing
  cases nothing

/-- Records that become similar when the types of their property `k` are merged. Merging them too would
make a record for each of the properties `p` and `q`, whose types are fixed. -/
def delayed : Graph :=
  ⟨#[⟨.primitive .string, .empty⟩, .required [("a", 0)] false,
      ⟨.record ⟨.ofList [("a", ⟨0, true⟩)], false⟩, .empty⟩,
      .required [("k", 1), ("p", 5), ("q", 7)] false,
      ⟨.record ⟨.ofList [("k", ⟨2, false⟩), ("p", ⟨6, true⟩), ("q", ⟨8, false⟩)], false⟩, .empty⟩,
      .required [("x", 0)] true, .required [("x", 0)] true, .required [("y", 0)] true,
      .required [("y", 0)] true],
    .ofList [("A", 3), ("B", 4), ("F1", 5), ("F2", 6), ("G1", 7), ("G2", 8)],
    firstFault?_eq_none_iff.1 (by decide +kernel)⟩

def mergedDelayed : Graph :=
  ⟨#[⟨.record ⟨.ofList [("a", ⟨1, true⟩)], false⟩, .empty⟩, ⟨.primitive .string, .empty⟩,
      .required [("k", 0), ("p", 3), ("q", 4)] false, .required [("x", 1)] true,
      .required [("y", 1)] true,
      ⟨.record ⟨.ofList [("k", ⟨0, false⟩), ("p", ⟨6, true⟩), ("q", ⟨7, false⟩)], false⟩, .empty⟩,
      .required [("x", 1)] true, .required [("y", 1)] true],
    .ofList [("A", 2), ("B", 5), ("F1", 3), ("F2", 6), ("G1", 4), ("G2", 7)],
    firstFault?_eq_none_iff.1 (by decide +kernel)⟩

/-- What the discarded round makes of it. -/
def overmergedDelayed : Graph :=
  ⟨#[⟨.record ⟨.ofList [("k", ⟨1, false⟩), ("p", ⟨3, true⟩), ("q", ⟨4, false⟩)], false⟩, .empty⟩,
      ⟨.record ⟨.ofList [("a", ⟨2, true⟩)], false⟩, .empty⟩, ⟨.primitive .string, .empty⟩,
      .required [("x", 2)] true, .required [("y", 2)] true, .required [("x", 2)] true,
      .required [("x", 2)] true, .required [("y", 2)] true, .required [("y", 2)] true],
    .ofList [("A", 0), ("B", 0), ("F1", 5), ("F2", 6), ("G1", 7), ("G2", 8)],
    firstFault?_eq_none_iff.1 (by decide +kernel)⟩

theorem similarityCliques_mergedDelayed :
    mergedDelayed.similarityCliques Settings.standard.search = .ok [[2, 5]] := by
  refine mergedDelayed.similarityCliques_eq (by cbv) ?_
  exact Clique.search_of_grow (by cbv) (Clique.search_of_grow (by cbv) (by cbv) rfl) rfl

set_option maxRecDepth 20000 in
theorem discards_mergedDelayed : Settings.standard.Discards .standard mergedDelayed := by
  have made : (Settings.standard.round .standard mergedDelayed [[2, 5]]).result =
      .ok overmergedDelayed := by cbv
  have before : mergedDelayed.recordCount = 7 := by cbv
  have after : overmergedDelayed.recordCount = 8 := by cbv
  refine ⟨overmergedDelayed, ⟨_, similarityCliques_mergedDelayed, made⟩, ?_⟩
  rw [before, after]
  decide

set_option maxRecDepth 20000 in
theorem combine_delayed : (Settings.standard.combine .standard delayed).result = .ok mergedDelayed := by
  have searched : delayed.similarityCliques Settings.standard.search = .ok [[1, 2]] := by
    refine delayed.similarityCliques_eq (by cbv) ?_
    exact Clique.search_of_grow (by cbv)
      (Clique.search_of_grow (by cbv) (Clique.search_of_grow (by cbv) (by cbv) rfl) rfl) rfl
  exact combine_of_first_round searched (by cbv) (laterRounds_of_discards discards_mergedDelayed 2)

/-- Two records whose property is text or an integer, in a union of text and another such union for one
of them. The copy knows text once. -/
def layered : Graph :=
  ⟨#[⟨.primitive .string, .empty⟩, ⟨.primitive .string, .empty⟩, ⟨.primitive .integer, .empty⟩,
      ⟨.union (.ofList [1, 2]), .empty⟩, ⟨.union (.ofList [0, 3]), .empty⟩,
      ⟨.union (.ofList [0, 2]), .empty⟩, .required [("a", 4)] false, .required [("a", 5)] false],
    .ofList [("A", 6), ("B", 7)], firstFault?_eq_none_iff.1 (by decide +kernel)⟩

def copiedLayered : Graph :=
  ⟨#[.required [("a", 1)] false, ⟨.union (.ofList [2, 3]), .empty⟩, ⟨.primitive .string, .empty⟩,
      ⟨.union (.ofList [2, 4]), .empty⟩, ⟨.primitive .integer, .empty⟩, .required [("a", 6)] false,
      ⟨.union (.ofList [2, 4]), .empty⟩],
    .ofList [("A", 0), ("B", 5)], firstFault?_eq_none_iff.1 (by decide +kernel)⟩

theorem similarityCliques_layered : layered.similarityCliques Settings.standard.search = .ok [] := by
  refine layered.similarityCliques_eq (by cbv) ?_
  exact Clique.search_of_grow (by cbv) (Clique.search_of_grow (by cbv) (by cbv) rfl) rfl

theorem similarityCliques_copiedLayered :
    copiedLayered.similarityCliques Settings.standard.search = .ok [[0, 5]] := by
  refine copiedLayered.similarityCliques_eq (by cbv) ?_
  exact Clique.search_of_grow (by cbv) (by cbv) rfl

/-- The settings of a target that wants properties sorted by name. -/
def sorting : Settings := ⟨⟨.all, true⟩, true, ⟨false, false⟩⟩

/-- Two records that are similar only in the order in which they are visited after their names are
sorted: each property is one of two records, and the cases of one kind are not paired one to one. -/
def swapped : Graph :=
  ⟨#[⟨.primitive .string, .empty⟩, ⟨.primitive .integer, .empty⟩, .required [("x", 1)] true,
      .required [("x", 0)] true, .required [("x", 0)] true, ⟨.union (.ofList [4]), .empty⟩,
      ⟨.union (.ofList [2, 5]), .empty⟩, ⟨.union (.ofList [3, 5]), .empty⟩,
      .required [("a", 6)] false, .required [("a", 7)] false, .required [("q", 8), ("p", 9)] false],
    .ofList [("W", 10)], firstFault?_eq_none_iff.1 (by decide +kernel)⟩

def copiedSwapped : Graph :=
  ⟨#[.required [("p", 8), ("q", 1)] false, .required [("a", 2)] false,
      ⟨.union (.ofList [3, 5]), .empty⟩, .required [("x", 4)] true, ⟨.primitive .integer, .empty⟩,
      ⟨.union (.ofList [6]), .empty⟩, .required [("x", 7)] true, ⟨.primitive .string, .empty⟩,
      .required [("a", 9)] false, ⟨.union (.ofList [10, 5]), .empty⟩, .required [("x", 7)] true],
    .ofList [("W", 0)], firstFault?_eq_none_iff.1 (by decide +kernel)⟩

theorem similarityCliques_swapped : swapped.similarityCliques sorting.search = .ok [] := by
  refine swapped.similarityCliques_eq (by cbv) ?_
  exact Clique.search_of_grow (by cbv)
    (Clique.search_of_grow (by cbv) (Clique.search_of_grow (by cbv) (by cbv) rfl) rfl) rfl

theorem similarityCliques_copiedSwapped :
    copiedSwapped.similarityCliques sorting.search = .ok [[8, 1]] := by
  refine copiedSwapped.similarityCliques_eq (by cbv) ?_
  exact Clique.search_of_grow (by cbv) (Clique.search_of_grow (by cbv) (by cbv) rfl) rfl

set_option maxRecDepth 20000 in
/-- Combining once is not enough in general: the round that would go on is discarded, or the graph has no
clique and its copy has one. -/
theorem combine_does_not_settle :
    (delayed.UnionsEnd ∧ ¬ Settings.standard.Settles .standard delayed) ∧
      (layered.UnionsEnd ∧ ¬ Settings.standard.Settles .standard layered) ∧
      swapped.UnionsEnd ∧ ¬ sorting.Settles .standard swapped := by
  refine ⟨⟨delayed.unionsEnd_of_lt (by decide), ?_⟩, ⟨layered.unionsEnd_of_lt (by decide), ?_⟩,
    swapped.unionsEnd_of_lt (by decide), ?_⟩
  · exact not_settles combine_delayed similarityCliques_mergedDelayed
  · have made : (Settings.standard.combine .standard layered).result = .ok copiedLayered :=
      combine_of_nothing similarityCliques_layered (by cbv)
    exact not_settles made similarityCliques_copiedLayered
  · have made : (sorting.combine .standard swapped).result = .ok copiedSwapped :=
      combine_of_nothing similarityCliques_swapped (by cbv)
    exact not_settles made similarityCliques_copiedSwapped

end Settings

end SchemaGraph
