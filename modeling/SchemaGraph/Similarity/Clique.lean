import SchemaGraph.Event
import SchemaGraph.Similarity.Overlap
/-!
# Similarity.Clique -- groups of records that describe one shape

Records are gone through in the order of reachability. The first one left is the seed of a clique;
each of the others joins the clique if it matches one of its prototypes, exactly or as a noisy
sample. A record that joins as a noisy sample becomes a prototype too. Records that did not join
are gone through again, until none is left. A clique has at least two members.
-/

namespace SchemaGraph

set_option autoImplicit false

/-- Which records may be merged. -/
structure SearchOptions where
  /-- Whether fixed records may be merged too. -/
  includeFixed : Bool
  /-- Whether merged records must have the same number of properties. -/
  onlySame : Bool
deriving DecidableEq, Repr

/-- A record with its reference. -/
abbrev Candidate := Ref × Record

/-- A group of records that match. -/
structure Clique where
  /-- The members, in the order in which they joined. -/
  members : List Ref
  /-- The members that others are compared with. -/
  prototypes : List Candidate

namespace Clique

/-- The clique of a single record. -/
def ofSeed (seed : Candidate) : Clique := ⟨[seed.1], [seed]⟩

variable (g : Graph) (onlySame : Bool)

/-- Whether a candidate may be a sample of the shape of one of the prototypes. -/
def fuzzyMatch (candidate : Candidate) : List Candidate → Except MergeFault Bool
  | [] => .ok false
  | anchor :: rest => do
    if ← g.canCombine onlySame anchor.2 candidate.2 then .ok true
    else fuzzyMatch candidate rest

/-- The clique with the candidate, if it matches. -/
def join? (clique : Clique) (candidate : Candidate) : Except MergeFault (Option Clique) :=
  if clique.prototypes.any fun anchor => g.sameShape false anchor.1 candidate.1 then
    .ok (some { clique with members := clique.members ++ [candidate.1] })
  else do
    if ← fuzzyMatch g onlySame candidate clique.prototypes then
      .ok (some ⟨clique.members ++ [candidate.1], clique.prototypes ++ [candidate]⟩)
    else .ok none

/-- The clique after all candidates had their turn, and the candidates that did not join. -/
def grow (clique : Clique) : List Candidate → Except MergeFault (Clique × List Candidate)
  | [] => .ok (clique, [])
  | candidate :: rest =>
    match join? g onlySame clique candidate with
    | .error fault => .error fault
    | .ok (some larger) => grow larger rest
    | .ok none =>
      match grow clique rest with
      | .error fault => .error fault
      | .ok (final, left) => .ok (final, candidate :: left)

theorem length_grow {clique final : Clique} {candidates left : List Candidate}
    (grown : grow g onlySame clique candidates = .ok (final, left)) :
    left.length ≤ candidates.length := by
  induction candidates generalizing clique left with
  | nil =>
    cases grown
    exact Nat.le_refl _
  | cons candidate rest ih =>
    rw [grow] at grown
    split at grown
    · cases grown
    · exact Nat.le_succ_of_le (ih grown)
    · split at grown
      · cases grown
      · rename_i inner
        cases grown
        exact Nat.succ_le_succ (ih inner)

/-- The cliques among the candidates, each seeded by the first candidate that is left. -/
def search (candidates : List Candidate) : Except MergeFault (List (List Ref)) :=
  match candidates with
  | [] => .ok []
  | seed :: rest =>
    match _grown : grow g onlySame (ofSeed seed) rest with
    | .error fault => .error fault
    | .ok (clique, left) => do
      let others ← search left
      .ok (if 1 < clique.members.length then clique.members :: others else others)
termination_by candidates.length
decreasing_by exact Nat.lt_succ_of_le (length_grow g onlySame _grown)

end Clique

namespace Graph

variable (g : Graph)

/-- A reachable record as a candidate. -/
def candidate (r : Ref) : Except MergeFault Candidate :=
  match g.record? r with
  | some record => .ok (r, record)
  | none => .error (.broken (.notRecord r))

/-- The records that may be merged, in the order of reachability. -/
def candidates (options : SearchOptions) : Except MergeFault (List Candidate) := do
  let records ← (g.reachableOf .record).mapM g.candidate
  .ok (records.filter fun candidate => options.includeFixed || !candidate.2.fixed)

/-- The groups of records that describe one shape. -/
def similarityCliques (options : SearchOptions) : Except MergeFault (List (List Ref)) := do
  Clique.search g options.onlySame (← g.candidates options)

/-- What is reported of a search that found the given cliques. -/
def searchEvents (options : SearchOptions) (cliques : List (List Ref)) : List Event :=
  let count := (g.candidates options).toOption.elim 0 List.length
  .candidates count :: cliques.filterMap fun clique =>
    clique.head?.map fun seed => .clique clique.length seed

end Graph

end SchemaGraph
