import SchemaGraph.Proofs.Combine.Rounds
import SchemaGraph.Proofs.Merge.Renumbering
import SchemaGraph.Proofs.Similarity.Renumbering
/-!
# Proofs.Combine.Renumbering -- combining does not see the numbers of nodes

The cliques of a renumbered graph are the images of the cliques, in the same order, and replacing them goes
through the same steps. Both rounds succeed, so they make one graph (`Settings.RoundTo.renumbers`): the same
nodes in the same order. What follows the first round is one and the same run, so combining a graph and
combining it with its nodes under other numbers, and with other nodes that nothing reaches, come to the same
result (`Settings.combine_renumbered`).
-/

namespace SchemaGraph

set_option autoImplicit false

namespace Drafting

variable {plan plan' : Plan} {image : Ref → Ref}

/-! ## Replacing groups -/

theorem agree_replaceGroup (label : String) {replacement : Replacement} {group : List Ref × Nat}
    (merges : ∀ slot, Agree (Draft.Renumbers plan.source image) (replacement plan group.1 slot)
      (replacement plan' (group.1.map image) slot) Eq) :
    Agree (Draft.Renumbers plan.source image) (replaceGroup plan label replacement group)
      (replaceGroup plan' label replacement (group.1.map image, group.2)) Eq := by
  refine (agree_groupRef group.2).bind_eq fun slot => (merges slot).bind_eq fun new => ?_
  refine agree_get.bind fun draft draft' related => ?_
  rw [related.builder]
  by_cases filled : new = slot ∧ draft.builder.isResolved slot = true
  · simp only [filled, and_self, if_true]
    exact agree_pure rfl
  · simp only [filled, if_false]
    exact agree_throw

variable (renumbers : plan.Renumbers plan' image)

include renumbers

theorem agree_bindTop {top : String × Ref} (reached : top.2 ∈ plan.source.reachable) :
    Agree (Draft.Renumbers plan.source image) (bindTop plan top) (bindTop plan' (top.1, image top.2)) Eq :=
  (agree_copy renumbers reached).bind_eq fun _ => agree_operation

/-- Groups that are replaced by agreeing work lead to one new graph. -/
theorem agree_replaceAll (label : String) {replacement : Replacement}
    (merges : ∀ group ∈ plan.groups, ∀ slot, Agree (Draft.Renumbers plan.source image)
      (replacement plan group slot) (replacement plan' (group.map image) slot) Eq) :
    Agree (Draft.Renumbers plan.source image) (replaceAll plan label replacement)
      (replaceAll plan' label replacement) Eq := by
  have groups : Agree (Draft.Renumbers plan.source image)
      (plan.groups.zipIdx.forM (replaceGroup plan label replacement))
      ((plan.groups.zipIdx.map fun group => (group.1.map image, group.2)).forM
        (replaceGroup plan' label replacement)) Eq := by
    refine agree_forM fun group listed => agree_replaceGroup label ?_
    exact merges group.1 (List.fst_mem_of_mem_zipIdx listed)
  have tops : Agree (Draft.Renumbers plan.source image) (plan.source.tops.entries.forM (bindTop plan))
      ((plan.source.tops.entries.map fun top => (top.1, image top.2)).forM (bindTop plan')) Eq :=
    agree_forM fun top listed =>
      agree_bindTop renumbers (plan.source.reachable_of_top (List.mem_map_of_mem listed))
  unfold replaceAll
  rw [renumbers.groups, List.zipIdx_map, renumbers.source.tops]
  refine groups.bind_eq fun _ => tops.bind_eq fun _ => agree_get.bind fun draft draft' related => ?_
  rw [related.builder]
  cases draft.builder.finish? with
  | error fault => exact agree_throw
  | ok graph => exact agree_report.bind_eq fun _ => agree_pure rfl

end Drafting

namespace Settings

variable {g g' h : Graph} {image : Ref → Ref}

theorem agree_mergeClique (settings : Settings) (registry : Registry) {plan plan' : Plan}
    (renumbers : plan.Renumbers plan' image) {group : List Ref} (listed : group ∈ plan.groups) (slot : Ref) :
    Drafting.Agree (Draft.Renumbers plan.source image) (settings.mergeClique registry plan group slot)
      (settings.mergeClique registry plan' (group.map image) slot) Eq := by
  have inside := renumbers.inside group listed
  refine Drafting.agree_report.bind_eq fun _ => ?_
  refine (Drafting.agree_combineAttributes renumbers _ inside).bind_eq fun attributes => ?_
  rw [renumbers.source.map_ofList inside]
  refine Drafting.agree_unify renumbers _ (fun r member => inside ?_) attributes (some slot)
  exact OrderedSet.mem_ofList.1 member

/-! ## Rounds -/

variable {settings : Settings} {registry : Registry}

theorem replaceGroups_of_round {cliques : List (List Ref)}
    (made : (settings.round registry g cliques).result = .ok h) :
    (g.replaceGroups "combine classes" settings.target cliques (settings.mergeClique registry)).result =
      .ok h := by
  rw [result_round] at made
  cases replaced : (g.replaceGroups "combine classes" settings.target cliques
      (settings.mergeClique registry)).result with
  | error failure =>
    rw [replaced] at made
    cases made
  | ok graph =>
    rw [replaced] at made
    cases made
    rfl

/-- A round makes one and the same graph of a graph and of the graph renumbered. -/
theorem RoundTo.renumbers (round : settings.RoundTo registry g h) (renumbers : g.Renumbers g' image) :
    settings.RoundTo registry g' h := by
  obtain ⟨cliques, searched, made⟩ := round
  have images : g'.similarityCliques settings.search = .ok (cliques.map (List.map image)) := by
    rw [renumbers.similarityCliques_image, searched]
    rfl
  obtain ⟨_, h', _, _, searched', _, made', _⟩ := settings.exists_round registry g'
  rw [← Except.ok.inj (images.symm.trans searched')] at made'
  obtain ⟨plan, final, planned, run⟩ := Graph.exists_run_of_replaceGroups (replaceGroups_of_round made)
  obtain ⟨plan', final', planned', run'⟩ := Graph.exists_run_of_replaceGroups (replaceGroups_of_round made')
  obtain ⟨rfl, rfl⟩ := Plan.eq_of_ofGroups? planned
  obtain ⟨rfl, groups'⟩ := Plan.eq_of_ofGroups? planned'
  have both : plan.Renumbers plan' image :=
    ⟨renumbers, groups', fun group listed r member =>
      (plan.source.eligible_of_mem_clique searched listed member).1⟩
  have agree := Drafting.agree_replaceAll both "combine classes" fun group listed =>
    agree_mergeClique settings registry both listed
  have start := Draft.renumbers_start plan.source image settings.target
  obtain ⟨rfl, _⟩ := agree _ _ start h final h' final' run run'
  exact ⟨_, images, made'⟩

/-- Node numbering does not matter: combining a graph and combining one that has its reachable nodes under
other numbers have the same result, a graph with the same nodes in the same order. -/
theorem combine_renumbered (settings : Settings) (registry : Registry) {g g' : Graph} {image : Ref → Ref}
    (renumbers : g.Renumbers g' image) :
    ∃ h, (settings.combine registry g).result = .ok h ∧ (settings.combine registry g').result = .ok h := by
  obtain ⟨plan, next, _, _, searched, _, made, _⟩ := settings.exists_round registry g
  have round : settings.RoundTo registry g next := ⟨plan.groups, searched, made⟩
  obtain ⟨cliques', searched', made'⟩ := round.renumbers renumbers
  have images : cliques' = plan.groups.map (List.map image) := by
    rw [renumbers.similarityCliques_image, searched] at searched'
    exact (Except.ok.inj searched').symm
  obtain ⟨_, h, _, _, result⟩ := settings.exists_combine registry g
  refine ⟨h, result, ?_⟩
  rw [result_combine searched made] at result
  rw [result_combine searched' made', images]
  simp only [List.map_eq_nil_iff]
  exact result

/-- Two records of one shape and a record that holds both. -/
def numbered : Graph :=
  ⟨#[⟨.primitive .string, .empty⟩, .required [("name", 0)] false, .required [("name", 0)] false,
      .required [("left", 1), ("right", 2)] false],
    .ofList [("Pair", 3)], firstFault?_eq_none_iff.1 (by decide +kernel)⟩

/-- The same records in another order, among two types that nothing reaches. -/
def shuffled : Graph :=
  ⟨#[.required [("left", 4), ("right", 1)] false, .required [("name", 3)] false,
      ⟨.array 5, .empty⟩, ⟨.primitive .string, .empty⟩, .required [("name", 3)] false,
      ⟨.primitive .integer, .empty⟩],
    .ofList [("Pair", 0)], firstFault?_eq_none_iff.1 (by decide +kernel)⟩

/-- Where the shuffled graph has the types of the other one. -/
def shuffle : Ref → Ref
  | 0 => 3
  | 1 => 4
  | 2 => 1
  | _ => 0

theorem numbered_renumbers_shuffled : numbered.Renumbers shuffled shuffle := by
  have listed : numbered.reachable = [3, 1, 0, 2] := by cbv
  have nodes : ∀ r ∈ [3, 1, 0, 2],
      shuffled.node? (shuffle r) = (numbered.node? r).map (Node.relocate shuffle) := by
    decide +kernel
  refine ⟨?_, by decide, ?_⟩
  · intro r node reached found
    rw [listed] at reached
    rw [nodes r reached, found, Option.map_some]
  · rw [listed]
    decide

/-- The shuffled graph is combined to the graph that the other one is combined to. -/
theorem combine_shuffled : ∃ h, (Settings.standard.combine .standard numbered).result = .ok h ∧
    (Settings.standard.combine .standard shuffled).result = .ok h :=
  combine_renumbered Settings.standard .standard numbered_renumbers_shuffled

end Settings

end SchemaGraph
