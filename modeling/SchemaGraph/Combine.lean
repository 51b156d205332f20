import SchemaGraph.Merge.Unify
import SchemaGraph.Settings
/-!
# Combine -- merging similar records until none is left

A round replaces every clique of similar records by one merged record. Merging records can make
the records that refer to them similar in turn, so rounds follow each other. The first round is
always kept; a later one is discarded, and ends the work, if it does not leave fewer records than
there were. So the number of records bounds the number of rounds.
-/

namespace SchemaGraph

set_option autoImplicit false

namespace Graph

/-- The number of reachable records. -/
def recordCount (g : Graph) : Nat := (g.reachableOf .record).length

end Graph

namespace Settings

variable (settings : Settings) (registry : Registry)

def unifier : Unifier := ⟨registry, settings.conflate⟩

/-- The replacement of a clique by the unification of its members. -/
def mergeClique : Replacement := fun plan members slot => do
  Drafting.report (.combining members slot)
  (settings.unifier registry).replacement plan members slot

/-- One round: every clique is replaced by one record. Faults are those of merging. -/
def round (g : Graph) (cliques : List (List Ref)) : Outcome :=
  let outcome :=
    g.replaceGroups "combine classes" settings.target cliques (settings.mergeClique registry)
  { outcome with result := outcome.result.mapError Failure.merged }

/-- The rounds from the given one on. -/
def laterRounds (g : Graph) (number : Nat) : Outcome :=
  match g.similarityCliques settings.search with
  | .error fault => ⟨.error (.fault (.merge fault)), []⟩
  | .ok cliques =>
    let searched := g.searchEvents settings.search cliques
    if cliques.isEmpty then ⟨.ok g, searched⟩
    else
      let attempt := settings.round registry g cliques
      let events := searched ++ .found cliques.length number :: attempt.events
      match attempt.result with
      | .error failure => ⟨.error failure, events⟩
      | .ok next =>
        if next.recordCount < g.recordCount then
          let later := laterRounds next (number + 1)
          ⟨later.result, events ++ later.events⟩
        else ⟨.ok g, events ++ [.stopped number next.recordCount]⟩
termination_by g.recordCount

/-- Merges the similar records of a graph. -/
def combine (g : Graph) : Outcome :=
  match g.similarityCliques settings.search with
  | .error fault => ⟨.error (.fault (.merge fault)), []⟩
  | .ok cliques =>
    let first := settings.round registry g cliques
    let events :=
      g.searchEvents settings.search cliques ++ .found cliques.length 1 :: first.events
    match first.result with
    | .error failure => ⟨.error failure, events⟩
    | .ok next =>
      if cliques.isEmpty then ⟨.ok next, events⟩
      else
        let later := settings.laterRounds registry next 2
        ⟨later.result, events ++ later.events⟩

end Settings

end SchemaGraph
