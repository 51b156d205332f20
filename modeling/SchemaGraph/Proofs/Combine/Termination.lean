import Mathlib
import SchemaGraph.Proofs.Combine.Count
import SchemaGraph.Proofs.Combine.Unions
/-!
# Proofs.Combine.Termination -- how many rounds a run takes, and where it stops

The rounds after the first are an open loop. It ends since every round that is kept leaves fewer records,
and since a merge of reachable records leaves one (`Plan.Replaces.recordCount_pos`), it is at its end
after as many turns as there were records after the first round: cut off there, it is the same loop, in
its result and in all that it reports (`Settings.laterRoundsWithin_eq`). Each turn takes unions apart, by
recursion over members, and unions of every graph on the way end, so that recursion is well-founded
(`Graph.UnionsEnd.wellFounded`).
-/

namespace SchemaGraph

set_option autoImplicit false

open Relation

/-! ## A round leaves a record -/

namespace Plan

variable {plan : Plan} {conflate : Bool} {target : Target} {h : Graph} {trace : Trace}

section Reachable

variable (replaces : plan.Replaces conflate target h trace) (records : plan.OfRecords)

include replaces records

theorem Replaces.mem_reachableOf_of_group {index : Nat} {n : Ref} (traced : trace n (.group index))
    (reached : n ∈ h.reachable) : n ∈ h.reachableOf .record := by
  obtain ⟨node, found⟩ := replaces.exists_node traced
  obtain ⟨raw, realises, rfl⟩ := replaces.explains traced found
  have kind : h.kind? n = some .record := by
    rw [Graph.kind?, found, Option.map_some, target.kind_normalize, realises.kind_of_group records]
  exact h.mem_reachableOf.2 ⟨reached, kind⟩

omit records in
/-- The constituents of a copy stand for those of its original. -/
theorem Replaces.exists_child_of_copy {old child n : Ref} (traced : trace n (.copy old))
    (inside : child ∈ plan.source.children old) : ∃ m ∈ h.children n, plan.CopyOf trace child m := by
  obtain ⟨node, found⟩ := replaces.exists_node traced
  obtain ⟨raw, realises, rfl⟩ := replaces.explains traced found
  cases realises with
  | @copy _ source news sourceNode related =>
    rw [Graph.children, sourceNode] at inside
    obtain ⟨m, listed, stands⟩ := exists_of_mem_left related inside
    refine ⟨m, ?_, stands⟩
    rw [Graph.children, found]
    refine (target.mem_children_normalize _).2 ?_
    exact (Ty.mem_children_withChildren related.length_eq.symm).2 listed

/-- On the way to a reachable type of the source there is a record in the new graph, or the type has
something reachable that stands for it. -/
theorem Replaces.record_or_stands {r : Ref} (reached : r ∈ plan.source.reachable) :
    h.reachableOf .record ≠ [] ∨ ∃ n ∈ h.reachable, plan.CopyOf trace r n := by
  obtain ⟨t, top, path⟩ := plan.source.mem_reachable_iff.1 reached
  clear reached
  induction path with
  | refl =>
    obtain ⟨entry, listed, rfl⟩ := List.mem_map.1 top
    obtain ⟨new, member, _, stands⟩ := exists_of_mem_left replaces.tops listed
    exact .inr ⟨new.2, h.reachable_of_top (List.mem_map_of_mem member), stands⟩
  | @tail old child _ inside ih =>
    obtain found | ⟨n, reached, stands⟩ := ih
    · exact .inl found
    unfold CopyOf at stands
    split at stands
    · exact .inl (List.ne_nil_of_mem (replaces.mem_reachableOf_of_group records stands reached))
    · obtain ⟨m, member, copy⟩ := replaces.exists_child_of_copy stands inside
      exact .inr ⟨m, h.reachable_children reached member, copy⟩

end Reachable

/-- Replacing cliques, of which there are some, leaves a reachable record. -/
theorem Replaces.recordCount_pos (replaces : plan.Replaces conflate target h trace)
    (cliques : plan.OfCliques) (nonempty : plan.groups ≠ []) : 0 < h.recordCount := by
  obtain ⟨group, listed⟩ := List.exists_mem_of_ne_nil plan.groups nonempty
  obtain ⟨r, member⟩ := List.exists_mem_of_ne_nil group (plan.nonempty group listed)
  refine List.length_pos_of_ne_nil ?_
  obtain found | ⟨n, reached, stands⟩ :=
    replaces.record_or_stands cliques.records (cliques.reachable group listed r member)
  · exact found
  · obtain ⟨index, grouped⟩ : ∃ index, plan.groupOf? r = some index := by
      obtain ⟨index, bound, rfl⟩ := List.mem_iff_getElem.1 listed
      exact ⟨index, plan.groupOf?_eq_some_iff.2 ⟨_, List.getElem?_eq_getElem bound, member⟩⟩
    rw [CopyOf, grouped] at stands
    exact List.ne_nil_of_mem (replaces.mem_reachableOf_of_group cliques.records stands reached)

end Plan

/-! ## The loop -/

namespace Settings

variable (settings : Settings) (registry : Registry)

/-- One turn of the loop over later rounds, given how the loop goes on. -/
def laterRound (rest : Graph → Nat → Outcome) (g : Graph) (number : Nat) : Outcome :=
  match g.similarityCliques settings.search with
  | .error fault => ⟨.error (.fault (.merge fault)), []⟩
  | .ok cliques =>
    let searched := g.searchEvents settings.search cliques
    if cliques.isEmpty then ⟨.ok g, searched⟩
    else
      let attempt := settings.round registry g cliques
      let events := searched ++ .found cliques.length number :: attempt.events
      match attempt.result with
      | .error failure => ⟨.error failure, events⟩
      | .ok next =>
        if next.recordCount < g.recordCount then
          let later := rest next (number + 1)
          ⟨later.result, events ++ later.events⟩
        else ⟨.ok g, events ++ [.stopped number next.recordCount]⟩

/-- The loop over later rounds, cut off after so many turns. -/
def laterRoundsWithin : Nat → Graph → Nat → Outcome
  | 0 => fun _ _ => ⟨.error .exhausted, []⟩
  | turns + 1 => settings.laterRound registry (laterRoundsWithin turns)

theorem laterRounds_eq (g : Graph) (number : Nat) : settings.laterRounds registry g number =
    settings.laterRound registry (settings.laterRounds registry) g number := by
  rw [laterRounds]
  rfl

variable {settings registry} {g h : Graph}

/-- The loop only goes on from a graph with fewer records, made by a round that had cliques. -/
theorem laterRound_congr {rest others : Graph → Nat → Outcome}
    (same : ∀ next, settings.RoundTo registry g next → g.similarityCliques settings.search ≠ .ok [] →
      next.recordCount < g.recordCount → ∀ number, rest next number = others next number)
    (number : Nat) :
    settings.laterRound registry rest g number = settings.laterRound registry others g number := by
  obtain ⟨plan, next, trace, _, searched, _, made, _⟩ := settings.exists_round registry g
  unfold laterRound
  rw [searched]
  simp only
  rw [made]
  simp only
  split_ifs with nothing fewer
  · rfl
  · have round : settings.RoundTo registry g next := ⟨plan.groups, searched, made⟩
    have some_clique : g.similarityCliques settings.search ≠ .ok [] := by
      intro none
      rw [searched] at none
      exact nothing (List.isEmpty_iff.2 (Except.ok.inj none))
    rw [same next round some_clique fewer]
  · rfl

/-- A round that has cliques leaves a record. -/
theorem RoundTo.recordCount_pos (round : settings.RoundTo registry g h)
    (some_clique : g.similarityCliques settings.search ≠ .ok []) : 0 < h.recordCount := by
  obtain ⟨plan, trace, _, searched, cliques, replaces⟩ := round.exists_plan
  refine replaces.recordCount_pos cliques fun none => some_clique ?_
  rw [searched, none]

/-- The loop makes at most as many turns as the graph has records, if it has any. -/
theorem laterRoundsWithin_eq {turns : Nat} (some_record : 0 < g.recordCount)
    (enough : g.recordCount ≤ turns) (number : Nat) :
    settings.laterRoundsWithin registry turns g number = settings.laterRounds registry g number := by
  induction turns generalizing g number with
  | zero => exact absurd (Nat.lt_of_lt_of_le some_record enough) (Nat.lt_irrefl 0)
  | succ turns ih =>
    rw [laterRounds_eq]
    refine laterRound_congr (fun next round some_clique fewer number => ?_) number
    exact ih (round.recordCount_pos some_clique) (Nat.le_of_lt_succ (Nat.lt_of_lt_of_le fewer enough)) number

/-- Combining a graph whose unions end takes a bounded number of rounds. The unions of every graph that
rounds lead to end, and with them the recursion over their members. After a first round, every round
that is kept leaves fewer records. If the first round had cliques, the loop that follows makes no more
turns than there were records after it, and ends where no clique is found, or where one more round would
leave no fewer records. -/
theorem combine_terminates (settings : Settings) (registry : Registry) (g : Graph) (ends : g.UnionsEnd) :
    (∀ before, ReflTransGen (settings.RoundTo registry) g before →
      before.UnionsEnd ∧ WellFounded fun m r => m ∈ before.members r) ∧
    ∃ first h, settings.RoundTo registry g first ∧
      ReflTransGen (settings.KeptRound registry) first h ∧
      (settings.combine registry g).result = .ok h ∧
      (g.similarityCliques settings.search = .ok [] → h = first) ∧
      (g.similarityCliques settings.search ≠ .ok [] →
        (settings.laterRounds registry first 2).result = .ok h ∧
        settings.laterRoundsWithin registry first.recordCount first 2 =
          settings.laterRounds registry first 2 ∧
        (h.similarityCliques settings.search = .ok [] ∨ settings.Discards registry h)) := by
  constructor
  · intro before path
    have all := ((combine_succeeds settings registry g ends).2 before path).1
    exact ⟨all, all.wellFounded⟩
  obtain ⟨plan, first, trace, _, searched, _, made, _⟩ := settings.exists_round registry g
  have round : settings.RoundTo registry g first := ⟨plan.groups, searched, made⟩
  have result := result_combine searched made
  by_cases nothing : plan.groups = []
  · rw [if_pos nothing] at result
    refine ⟨first, first, round, .refl, result, fun _ => rfl, fun some_clique => ?_⟩
    exact absurd (nothing ▸ searched) some_clique
  · rw [if_neg nothing] at result
    obtain ⟨h, later, path⟩ := settings.exists_laterRounds registry first 2
    refine ⟨first, h, round, path, result.trans later, fun none => ?_, fun some_clique => ?_⟩
    · exact absurd (Except.ok.inj (searched.symm.trans none)) nothing
    · refine ⟨later, ?_, laterRounds_end later⟩
      exact laterRoundsWithin_eq (round.recordCount_pos some_clique) (Nat.le_refl _) 2

/-- The twins have a clique, and the loop after their first round takes no more turns than the seven
records that it leaves. -/
theorem combine_twins_terminates : twins.UnionsEnd ∧
    ∃ first, Settings.standard.RoundTo .standard twins first ∧
      Settings.standard.laterRoundsWithin .standard first.recordCount first 2 =
        Settings.standard.laterRounds .standard first 2 := by
  have ends : twins.UnionsEnd := twins.unionsEnd_of_lt (by decide)
  refine ⟨ends, ?_⟩
  obtain ⟨_, first, h, round, _, _, _, loop⟩ :=
    combine_terminates Settings.standard .standard twins ends
  have some_clique : twins.similarityCliques Settings.standard.search ≠ .ok [] := by
    rw [similarityCliques_twins]
    decide
  exact ⟨first, round, (loop some_clique).2.1⟩

end Settings

end SchemaGraph
