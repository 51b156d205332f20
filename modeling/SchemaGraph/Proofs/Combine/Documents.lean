import Mathlib
import SchemaGraph.Proofs.Combine.Rounds
import SchemaGraph.Proofs.Documents.Replace
/-!
# Proofs.Combine.Documents -- combining loses no document

A graph includes another one when it has the same names in the same order, and every document that
belongs to the type of a name still belongs to it. A round includes the graph that it started from
(`Settings.RoundTo.includes`), so combining does: whatever the settings and the policies of
attributes are, the result accepts every sample that the graph was inferred from.
-/

namespace SchemaGraph

set_option autoImplicit false

/-- The second graph names the same types, and a document that belongs to a named type of the first
belongs to the type of that name in the second. -/
structure Graph.IncludedIn (g h : Graph) : Prop where
  names : h.tops.keys = g.tops.keys
  documents : ∀ name r, g.top? name = some r →
    ∃ s, h.top? name = some s ∧ ∀ doc, g.Accepts doc r → h.Accepts doc s

namespace Graph.IncludedIn

theorem refl (g : Graph) : g.IncludedIn g := ⟨rfl, fun _ r found => ⟨r, found, fun _ accepts => accepts⟩⟩

theorem trans {f g h : Graph} (one : f.IncludedIn g) (two : g.IncludedIn h) : f.IncludedIn h where
  names := two.names.trans one.names
  documents name r found := by
    obtain ⟨s, foundS, first⟩ := one.documents name r found
    obtain ⟨t, foundT, second⟩ := two.documents name s foundS
    exact ⟨t, foundT, fun doc accepts => second doc (first doc accepts)⟩

end Graph.IncludedIn

namespace Plan

variable {plan : Plan} {conflate : Bool} {target : Target} {h : Graph} {trace : Trace}

/-- A graph that replaces groups of records includes the source. -/
theorem Replaces.includes (replaces : plan.Replaces conflate target h trace)
    (records : plan.OfRecords) : plan.source.IncludedIn h where
  names := replaces.keys_tops
  documents name r found := by
    have entry := OrderedMap.get?_eq_some_iff.1 found
    obtain ⟨⟨other, s⟩, listed, sameName, stands⟩ := exists_of_mem_left replaces.tops entry
    have named : other = name := sameName
    subst named
    refine ⟨s, OrderedMap.get?_eq_some_iff.2 listed, ?_⟩
    intro doc accepts
    exact (replaces.carries records accepts).copy stands

end Plan

namespace Settings

variable {settings : Settings} {registry : Registry} {g h : Graph}

theorem RoundTo.includes (round : settings.RoundTo registry g h) : g.IncludedIn h := by
  obtain ⟨plan, trace, rfl, _, ofCliques, replaces⟩ := round.exists_plan
  exact replaces.includes ofCliques.records

/-- What combining makes of a graph has the names of the graph in their order, and every document
that belongs to the type of a name still belongs to the type of that name. -/
theorem combine_loses_no_document (done : (settings.combine registry g).result = .ok h) :
    h.tops.keys = g.tops.keys ∧
      ∀ name r, g.top? name = some r →
        ∃ s, h.top? name = some s ∧ ∀ doc, g.Accepts doc r → h.Accepts doc s := by
  have included : g.IncludedIn h := by
    refine combine_induction done (.refl g) ?_
    intro before after round soFar
    exact soFar.trans round.includes
  exact ⟨included.names, included.documents⟩

/-- Two records of text, one of which lacks the last property of the other. -/
def lacking : Graph :=
  ⟨#[⟨.primitive .string, .empty⟩, .required [("a", 0), ("b", 0), ("c", 0), ("d", 0)] false,
      .required [("a", 0), ("b", 0), ("c", 0)] false],
    .ofList [("A", 1), ("B", 2)], firstFault?_eq_none_iff.1 (by decide +kernel)⟩

/-- What combining makes of them: a record whose last property is optional. -/
def mergedLacking : Graph :=
  ⟨#[⟨.record ⟨.ofList [("a", ⟨1, false⟩), ("b", ⟨1, false⟩), ("c", ⟨1, false⟩), ("d", ⟨1, true⟩)], false⟩,
        .empty⟩, ⟨.primitive .string, .empty⟩],
    .ofList [("A", 0), ("B", 0)], firstFault?_eq_none_iff.1 (by decide +kernel)⟩

theorem combine_lacking : (Settings.standard.combine .standard lacking).result = .ok mergedLacking := by
  have searched : lacking.similarityCliques Settings.standard.search = .ok [[1, 2]] := by
    refine lacking.similarityCliques_eq (by cbv) ?_
    rw [Clique.search_cons]
    cbv
  have ended : mergedLacking.similarityCliques Settings.standard.search = .ok [] := by
    refine mergedLacking.similarityCliques_eq (by cbv) ?_
    rw [Clique.search_cons]
    cbv
  exact combine_of_one_round searched (by cbv) ended

theorem lacking_loses_no_document :
    (Settings.standard.combine .standard lacking).result = .ok mergedLacking ∧
      mergedLacking.tops.keys = lacking.tops.keys ∧
      ∀ name r, lacking.top? name = some r → ∃ s, mergedLacking.top? name = some s ∧
        ∀ doc, lacking.Accepts doc r → mergedLacking.Accepts doc s :=
  ⟨combine_lacking, combine_loses_no_document combine_lacking⟩

end Settings

end SchemaGraph
