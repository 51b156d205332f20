import SchemaGraph.Combine
import SchemaGraph.Proofs.Draft.Replacement
import SchemaGraph.Proofs.Merge.Unify
import SchemaGraph.Proofs.Similarity.Search
/-!
# Proofs.Combine.Rounds -- combining is a sequence of rounds that succeed

Each round replaces the cliques of a graph, and that never fails: the cliques are a plan, and merging
fills the reference of each (`Settings.exists_round`). A first round that is always kept, and later
rounds each of which leaves fewer records, are all that combining is
(`Settings.exists_combine`). What one round preserves, the whole run preserves
(`Settings.combine_induction`).
-/

namespace SchemaGraph

set_option autoImplicit false

open Relation

/-- The groups of a plan are cliques: several reachable records each. -/
structure Plan.OfCliques (plan : Plan) : Prop where
  records : plan.OfRecords
  reachable : ∀ group ∈ plan.groups, ∀ r ∈ group, r ∈ plan.source.reachable
  several : ∀ group ∈ plan.groups, 1 < group.length

/-- All that replacing cliques comes to is reachable. -/
theorem Plan.OfCliques.reachable_of_reached {plan : Plan} (cliques : plan.OfCliques)
    {r : Ref} (reached : plan.Reached r) : r ∈ plan.source.reachable := by
  induction reached with
  | member group inside => exact cliques.reachable _ group _ inside
  | top top => exact plan.source.reachable_of_top top
  | child _ child ih => exact plan.source.reachable_children ih child

namespace Settings

variable (settings : Settings) (registry : Registry)

/-- Merging a clique fills the reference of its group. -/
theorem fills_mergeClique : (settings.mergeClique registry).Fills settings.conflate := by
  intro plan stage index members slot sound listed awaits
  refine .bind (Drafting.advances_report _ sound) ?_
  intro _ after afterSound follows _
  have same : after.Sound plan (settings.unifier registry).conflate := afterSound
  exact Unifier.advances_replacement same listed (awaits.later follows)

theorem result_round (g : Graph) (cliques : List (List Ref)) :
    (settings.round registry g cliques).result =
      (g.replaceGroups "combine classes" settings.target cliques
        (settings.mergeClique registry)).result.mapError Failure.merged := rfl

/-- The graph is what a round makes of the cliques of another one. -/
def RoundTo (g h : Graph) : Prop :=
  ∃ cliques, g.similarityCliques settings.search = .ok cliques ∧
    (settings.round registry g cliques).result = .ok h

/-- A round always succeeds, and its result replaces the cliques. -/
theorem exists_round (g : Graph) : ∃ (plan : Plan) (h : Graph) (trace : Trace), plan.source = g ∧
    g.similarityCliques settings.search = .ok plan.groups ∧ plan.OfCliques ∧
    (settings.round registry g plan.groups).result = .ok h ∧
    plan.Replaces settings.conflate settings.target h trace := by
  obtain ⟨cliques, found, distinct, several, reachable⟩ := g.similarityCliques_spec settings.search
  have nonempty : ∀ clique ∈ cliques, clique ≠ [] := by
    rintro clique listed rfl
    exact absurd (several [] listed) (by decide)
  have inside : ∀ clique ∈ cliques, ∀ r ∈ clique, r < g.size := fun clique listed r member =>
    g.lt_of_mem_reachable (g.mem_reachableOf.1 (reachable clique listed r member)).1
  let plan : Plan := ⟨g, cliques, nonempty, inside, distinct⟩
  have planned : Plan.ofGroups? g plan.groups = .ok plan :=
    Plan.ofGroups?_eq_ok nonempty inside distinct
  have records : plan.OfRecords := fun clique listed r member =>
    (g.mem_reachableOf.1 (reachable clique listed r member)).2
  obtain ⟨h, trace, replaced, replaces, _⟩ :=
    Graph.replaceGroups_succeeds "combine classes" (settings.fills_mergeClique registry) planned
      records
  refine ⟨plan, h, trace, rfl, found, ?_, ?_, replaces⟩
  · refine ⟨records, ?_, several⟩
    exact fun clique listed r member => (g.mem_reachableOf.1 (reachable clique listed r member)).1
  · rw [result_round, replaced]
    rfl

variable {settings registry} {g h : Graph}

theorem RoundTo.exists_plan (round : settings.RoundTo registry g h) :
    ∃ (plan : Plan) (trace : Trace), plan.source = g ∧
      g.similarityCliques settings.search = .ok plan.groups ∧ plan.OfCliques ∧
      plan.Replaces settings.conflate settings.target h trace := by
  obtain ⟨cliques, found, made⟩ := round
  obtain ⟨plan, other, trace, source, searched, ofCliques, result, replaces⟩ :=
    settings.exists_round registry g
  have same : cliques = plan.groups := Except.ok.inj (found.symm.trans searched)
  rw [same, result] at made
  cases made
  exact ⟨plan, trace, source, searched, ofCliques, replaces⟩

/-! ## The steps of a run -/

/-- A run keeps its first round, and goes on if there were cliques. -/
theorem result_combine {cliques : List (List Ref)} {next : Graph}
    (searched : g.similarityCliques settings.search = .ok cliques)
    (made : (settings.round registry g cliques).result = .ok next) :
    (settings.combine registry g).result =
      if cliques = [] then .ok next else (settings.laterRounds registry next 2).result := by
  unfold combine
  rw [searched]
  simp only
  rw [made]
  cases cliques <;> rfl

/-- A later round ends the run if there are no cliques, or if it does not leave fewer records. -/
theorem result_laterRounds {cliques : List (List Ref)} {next : Graph} (number : Nat)
    (searched : g.similarityCliques settings.search = .ok cliques)
    (made : (settings.round registry g cliques).result = .ok next) :
    (settings.laterRounds registry g number).result =
      if cliques = [] then .ok g
      else if next.recordCount < g.recordCount then
        (settings.laterRounds registry next (number + 1)).result
      else .ok g := by
  rw [laterRounds, searched]
  cases cliques with
  | nil => rfl
  | cons clique others =>
    simp only [List.isEmpty_cons, Bool.false_eq_true, if_false, reduceCtorEq]
    rw [made]
    simp only
    split <;> rfl

/-- A later round that is kept leaves fewer records. -/
def KeptRound (settings : Settings) (registry : Registry) (g h : Graph) : Prop :=
  settings.RoundTo registry g h ∧ h.recordCount < g.recordCount

variable (settings registry)

/-- The later rounds succeed, and the result comes of those that are kept. -/
theorem exists_laterRounds (g : Graph) (number : Nat) :
    ∃ h, (settings.laterRounds registry g number).result = .ok h ∧
      ReflTransGen (settings.KeptRound registry) g h := by
  -- a round that is kept leaves fewer records, so their number bounds the rounds that follow
  generalize count : g.recordCount = bound
  induction bound using Nat.strongRecOn generalizing g number with
  | _ bound ih =>
    subst count
    obtain ⟨plan, next, trace, _, searched, _, made, _⟩ := settings.exists_round registry g
    rw [result_laterRounds number searched made]
    split_ifs with nothing fewer
    · exact ⟨g, rfl, .refl⟩
    · obtain ⟨h, result, path⟩ := ih next.recordCount fewer next (number + 1) rfl
      exact ⟨h, result, .head ⟨⟨plan.groups, searched, made⟩, fewer⟩ path⟩
    · exact ⟨g, rfl, .refl⟩

/-- Combining succeeds, by a first round and later rounds that are kept. -/
theorem exists_combine (g : Graph) :
    ∃ first h, settings.RoundTo registry g first ∧
      ReflTransGen (settings.KeptRound registry) first h ∧
      (settings.combine registry g).result = .ok h := by
  obtain ⟨plan, next, trace, _, searched, _, made, _⟩ := settings.exists_round registry g
  have round : settings.RoundTo registry g next := ⟨plan.groups, searched, made⟩
  rw [result_combine searched made]
  split_ifs with nothing
  · exact ⟨next, next, round, .refl, rfl⟩
  · obtain ⟨h, result, path⟩ := settings.exists_laterRounds registry next 2
    exact ⟨next, h, round, path, result⟩

variable {settings registry}

/-- The rounds of a run that has a result. -/
theorem rounds_of_combine (done : (settings.combine registry g).result = .ok h) :
    ∃ first, settings.RoundTo registry g first ∧
      ReflTransGen (settings.KeptRound registry) first h := by
  obtain ⟨first, other, round, path, result⟩ := settings.exists_combine registry g
  rw [result] at done
  cases done
  exact ⟨first, round, path⟩

/-! ## How a run ends -/

/-- A round of the graph would leave no fewer records, so that it would be discarded as a later one. -/
def Discards (settings : Settings) (registry : Registry) (g : Graph) : Prop :=
  ∃ next, settings.RoundTo registry g next ∧ g.recordCount ≤ next.recordCount

/-- Later rounds end with a graph in which no clique is found, or with one whose next round is
discarded. -/
theorem laterRounds_end {number : Nat}
    (done : (settings.laterRounds registry g number).result = .ok h) :
    h.similarityCliques settings.search = .ok [] ∨ settings.Discards registry h := by
  generalize count : g.recordCount = bound
  induction bound using Nat.strongRecOn generalizing g number with
  | _ bound ih =>
    subst count
    obtain ⟨plan, next, trace, _, searched, _, made, _⟩ := settings.exists_round registry g
    rw [result_laterRounds number searched made] at done
    split_ifs at done with nothing fewer
    · cases done
      rw [nothing] at searched
      exact .inl searched
    · exact ih next.recordCount fewer done rfl
    · cases done
      exact .inr ⟨next, ⟨plan.groups, searched, made⟩, Nat.not_lt.1 fewer⟩

/-- A run ends after one round if no clique is found, and else as later rounds do. -/
theorem combine_ends (done : (settings.combine registry g).result = .ok h) :
    g.similarityCliques settings.search = .ok [] ∧ settings.RoundTo registry g h ∨
      g.similarityCliques settings.search ≠ .ok [] ∧
        (h.similarityCliques settings.search = .ok [] ∨ settings.Discards registry h) := by
  obtain ⟨plan, next, trace, _, searched, _, made, _⟩ := settings.exists_round registry g
  rw [result_combine searched made] at done
  split_ifs at done with nothing
  · cases done
    rw [nothing] at searched made
    exact .inl ⟨searched, [], searched, made⟩
  · refine .inr ⟨fun none => nothing ?_, laterRounds_end done⟩
    exact Except.ok.inj (searched.symm.trans none)

theorem laterRounds_of_discards (discards : settings.Discards registry g) (number : Nat) :
    (settings.laterRounds registry g number).result = .ok g := by
  obtain ⟨next, ⟨cliques, searched, made⟩, more⟩ := discards
  rw [result_laterRounds number searched made, if_neg (Nat.not_lt.2 more), ite_self]

/-- A run all of whose later rounds are discarded. -/
theorem combine_of_first_round {cliques : List (List Ref)}
    (searched : g.similarityCliques settings.search = .ok cliques)
    (made : (settings.round registry g cliques).result = .ok h)
    (later : (settings.laterRounds registry h 2).result = .ok h) :
    (settings.combine registry g).result = .ok h := by
  rw [result_combine searched made, later, ite_self]

/-- A run that finds no clique after its first round. -/
theorem combine_of_one_round {cliques : List (List Ref)}
    (searched : g.similarityCliques settings.search = .ok cliques)
    (made : (settings.round registry g cliques).result = .ok h)
    (ended : h.similarityCliques settings.search = .ok []) :
    (settings.combine registry g).result = .ok h := by
  refine combine_of_first_round searched made ?_
  rw [laterRounds, ended]
  rfl

/-! ## What rounds preserve -/

/-- What holds after the first round, and is carried on by every round, holds of what combining
makes. -/
theorem combine_induction_of_first {motive : Graph → Prop}
    (done : (settings.combine registry g).result = .ok h)
    (first : ∀ {after}, settings.RoundTo registry g after → motive after)
    (step : ∀ {before after}, settings.RoundTo registry before after → motive before → motive after) :
    motive h := by
  obtain ⟨next, round, path⟩ := rounds_of_combine done
  clear done
  induction path with
  | refl => exact first round
  | tail _ last ih => exact step last.1 ih

/-- What holds between a graph and itself, and is carried on by every round, holds between a graph and
what combining makes of it. -/
theorem combine_induction {motive : Graph → Prop}
    (done : (settings.combine registry g).result = .ok h) (start : motive g)
    (step : ∀ {before after}, settings.RoundTo registry before after → motive before → motive after) :
    motive h :=
  combine_induction_of_first done (fun round => step round start) step

end Settings

end SchemaGraph
