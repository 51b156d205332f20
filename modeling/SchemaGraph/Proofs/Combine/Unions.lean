import SchemaGraph.Proofs.Combine.Rounds
import SchemaGraph.Proofs.Merge.Unions
/-!
# Proofs.Combine.Unions -- combining succeeds in every round, and unions keep ending

A graph whose unions contain themselves has no leaves to compare, so the search asks for graphs whose
unions end (`Graph.UnionsEnd`). Cliques consist of records, so merging them makes no union contain
itself that did not before (`Plan.Replaces.unionsEnd`). Every round thus starts from a graph whose unions
end, and none fails (`Settings.combine_succeeds`).
-/

namespace SchemaGraph

set_option autoImplicit false

open Relation

/-- If the unions of the source end, replacing groups of records makes a graph whose unions end: they have no
unions to hand over. -/
theorem Plan.Replaces.unionsEnd {plan : Plan} {conflate : Bool} {target : Target} {h : Graph} {trace : Trace}
    (replaces : plan.Replaces conflate target h trace) (records : plan.OfRecords)
    (ends : plan.source.UnionsEnd) : h.UnionsEnd := by
  have plain : ∀ group ∈ plan.groups, ∀ r ∈ group, plan.source.kind? r ≠ some .union := by
    intro group listed r member isUnion
    cases (records group listed r member).symm.trans isUnion
  have unites : ∀ n index type, trace n (.group index) → h.type? n = some type →
      plan.UnitesGroup conflate trace index type := by
    intro n index type _ _ members listed several
    obtain ⟨refs, single⟩ := records.contributors_eq listed
    rw [single] at several
    exact absurd rfl several
  intro n cycle
  obtain ⟨index, _, circle⟩ := (replaces.contains_itself_iff unites ends).1 cycle
  obtain ⟨second, first, _⟩ := TransGen.head'_iff.1 circle
  exact not_handsOver_of_plain plain index second first

namespace Settings

variable {settings : Settings} {registry : Registry} {g h : Graph}

theorem RoundTo.unionsEnd (round : settings.RoundTo registry g h) (ends : g.UnionsEnd) :
    h.UnionsEnd := by
  obtain ⟨plan, trace, rfl, _, ofCliques, replaces⟩ := round.exists_plan
  exact replaces.unionsEnd ofCliques.records ends

/-- Combining a graph whose unions end succeeds, and so does every round: from each graph that rounds
lead to, the search finds cliques, and merging them makes a graph whose unions end again. -/
theorem combine_succeeds (settings : Settings) (registry : Registry) (g : Graph)
    (ends : g.UnionsEnd) :
    (∃ h, (settings.combine registry g).result = .ok h ∧ h.UnionsEnd) ∧
      ∀ before, ReflTransGen (settings.RoundTo registry) g before → before.UnionsEnd ∧
        ∃ cliques after, before.similarityCliques settings.search = .ok cliques ∧
          (settings.round registry before cliques).result = .ok after ∧ after.UnionsEnd := by
  have everywhere : ∀ before, ReflTransGen (settings.RoundTo registry) g before →
      before.UnionsEnd := by
    intro before path
    induction path with
    | refl => exact ends
    | tail _ last ih => exact last.unionsEnd ih
  constructor
  · obtain ⟨first, h, _, _, result⟩ := settings.exists_combine registry g
    refine ⟨h, result, combine_induction result ends ?_⟩
    exact fun round soFar => round.unionsEnd soFar
  · intro before path
    refine ⟨everywhere before path, ?_⟩
    obtain ⟨plan, after, trace, source, searched, _, made, _⟩ :=
      settings.exists_round registry before
    have round : settings.RoundTo registry before after := ⟨plan.groups, searched, made⟩
    exact ⟨plan.groups, after, searched, made, round.unionsEnd (everywhere before path)⟩

/-- Two records with a property that is text or an integer. -/
def choices : Graph :=
  ⟨#[⟨.primitive .string, .empty⟩, ⟨.primitive .integer, .empty⟩, ⟨.union (.ofList [0, 1]), .empty⟩,
      .required [("a", 2)] false, .required [("a", 2)] false],
    .ofList [("A", 3), ("B", 4)], firstFault?_eq_none_iff.1 (by decide +kernel)⟩

theorem combine_choices_succeeds :
    choices.UnionsEnd ∧ ∃ h, (Settings.standard.combine .standard choices).result = .ok h ∧
      h.UnionsEnd := by
  have ends : choices.UnionsEnd := choices.unionsEnd_of_lt (by decide)
  exact ⟨ends, (combine_succeeds .standard .standard choices ends).1⟩

end Settings

end SchemaGraph
