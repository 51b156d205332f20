import SchemaGraph.Proofs.Combine.Count
import SchemaGraph.Proofs.Graph.Relocation
/-!
# Proofs.Combine.Names -- where names lead after combining

A round rebinds every name to what its type became: the copy, or the replacement of the clique that the
type belongs to. What a type becomes is one type, so a round is a map of the types that have names
(`Graph.Rebinds`), and it maps the members of a clique to one type (`Settings.RoundTo.exists_rebinds`).
Maps compose, so types that were merged once stay merged whatever follows, and a type of a name keeps its
kind through all rounds (`Settings.combine_collapses_cliques`).
-/

namespace SchemaGraph

set_option autoImplicit false

namespace Graph

/-- The second graph has the names of the first, in order. Each leads to the image of the type that it led
to, which is of the same kind. -/
structure Rebinds (g h : Graph) (image : Ref → Ref) : Prop where
  tops : h.tops.entries = g.tops.entries.map fun top => (top.1, image top.2)
  kind : ∀ r ∈ g.tops.values, h.kind? (image r) = g.kind? r

variable {f g h : Graph} {image later : Ref → Ref}

theorem Rebinds.image_mem (rebinds : g.Rebinds h image) {r : Ref} (top : r ∈ g.tops.values) :
    image r ∈ h.tops.values := by
  obtain ⟨entry, listed, rfl⟩ := List.mem_map.1 top
  refine List.mem_map.2 ⟨(entry.1, image entry.2), ?_, rfl⟩
  rw [rebinds.tops]
  exact List.mem_map_of_mem listed

theorem Rebinds.trans (one : f.Rebinds g image) (two : g.Rebinds h later) :
    f.Rebinds h (later ∘ image) where
  tops := by
    rw [two.tops, one.tops, List.map_map]
    rfl
  kind r top := (two.kind _ (one.image_mem top)).trans (one.kind r top)

/-- A name leads to the image of what it led to. -/
theorem Rebinds.top?_eq (rebinds : g.Rebinds h image) (name : String) :
    h.top? name = (g.top? name).map image := by
  rw [top?, OrderedMap.get?, rebinds.tops]
  exact OrderedMap.lookup_map image name g.tops.entries

theorem mem_values_of_top? {name : String} {r : Ref} (found : g.top? name = some r) :
    r ∈ g.tops.values :=
  List.mem_map_of_mem (OrderedMap.get?_eq_some_iff.1 found)

end Graph

namespace Plan

variable {plan : Plan} {conflate : Bool} {target : Target} {h : Graph} {trace : Trace}

/-- What stands for a type is one type of the new graph. -/
theorem Replaces.eq_of_copyOf (replaces : plan.Replaces conflate target h trace) {old other n m : Ref}
    (one : plan.CopyOf trace old n) (two : plan.CopyOf trace other m)
    (together : old = other ∨ ∃ group ∈ plan.groups, old ∈ group ∧ other ∈ group) : n = m := by
  rcases together with rfl | ⟨group, listed, memberOld, memberOther⟩
  · unfold CopyOf at one two
    cases own : plan.groupOf? old with
    | some index =>
      rw [own] at one two
      exact replaces.unique one two
    | none =>
      rw [own] at one two
      exact replaces.unique one two
  · obtain ⟨index, place⟩ := List.mem_iff_getElem?.1 listed
    have ofOld : plan.groupOf? old = some index := plan.groupOf?_eq_some_iff.2 ⟨group, place, memberOld⟩
    have ofOther : plan.groupOf? other = some index :=
      plan.groupOf?_eq_some_iff.2 ⟨group, place, memberOther⟩
    simp only [CopyOf, ofOld, ofOther] at one two
    exact replaces.unique one two

/-- Replacing groups of records rebinds the names. -/
theorem Replaces.exists_rebinds (replaces : plan.Replaces conflate target h trace)
    (records : plan.OfRecords) :
    ∃ image, plan.source.Rebinds h image ∧ ∀ r ∈ plan.source.tops.values, plan.CopyOf trace r (image r) := by
  have bound : ∀ r ∈ plan.source.tops.values, ∃ n, plan.CopyOf trace r n := by
    intro r top
    obtain ⟨entry, listed, rfl⟩ := List.mem_map.1 top
    obtain ⟨new, _, _, stands⟩ := exists_of_mem_left replaces.tops listed
    exact ⟨new.2, stands⟩
  choose! image stands using bound
  refine ⟨image, ⟨?_, ?_⟩, stands⟩
  · have same := map_eq_map_of_forall₂ replaces.tops fun old listed new _ (top : new.1 = old.1 ∧ _) =>
      (Prod.ext top.1.symm (replaces.eq_of_copyOf (stands old.2 (List.mem_map_of_mem listed)) top.2
        (.inl rfl)) : (old.1, image old.2) = new)
    rw [List.map_id'] at same
    exact same.symm
  · intro r top
    obtain ⟨origin, traced⟩ := (stands r top).exists_origin
    obtain ⟨node, found⟩ := replaces.exists_node traced
    rw [kind_of_copyOf replaces.explains records (stands r top) found, Graph.kind?, found]
    rfl

end Plan

namespace Settings

variable {settings : Settings} {registry : Registry} {g h : Graph} {cliques : List (List Ref)}

/-- A round rebinds the names, and merges every clique into one type. -/
theorem RoundTo.exists_rebinds (round : settings.RoundTo registry g h)
    (searched : g.similarityCliques settings.search = .ok cliques) :
    ∃ image, g.Rebinds h image ∧ ∀ clique ∈ cliques, ∀ a ∈ clique, ∀ b ∈ clique,
      a ∈ g.tops.values → b ∈ g.tops.values → image a = image b := by
  obtain ⟨plan, trace, rfl, found, ofCliques, replaces⟩ := round.exists_plan
  obtain ⟨image, rebinds, stands⟩ := replaces.exists_rebinds ofCliques.records
  rw [searched] at found
  cases found
  refine ⟨image, rebinds, fun clique listed a inA b inB topA topB => ?_⟩
  exact replaces.eq_of_copyOf (stands a topA) (stands b topB) (.inr ⟨clique, listed, inA, inB⟩)

/-- The rounds of a run rebind the names one after the other, so what the first one merges stays merged. -/
theorem exists_rebinds_of_combine (done : (settings.combine registry g).result = .ok h)
    (searched : g.similarityCliques settings.search = .ok cliques) :
    ∃ image, g.Rebinds h image ∧ ∀ clique ∈ cliques, ∀ a ∈ clique, ∀ b ∈ clique,
      a ∈ g.tops.values → b ∈ g.tops.values → image a = image b := by
  refine combine_induction_of_first done (fun round => round.exists_rebinds searched) ?_
  rintro before after round ⟨image, rebinds, merged⟩
  obtain ⟨plan, _, rfl, found, _, _⟩ := round.exists_plan
  obtain ⟨later, rebindsLater, _⟩ := round.exists_rebinds found
  exact ⟨later ∘ image, rebinds.trans rebindsLater, fun clique listed a inA b inB topA topB =>
    congrArg later (merged clique listed a inA b inB topA topB)⟩

/-- Members of a clique are merged for good: two names that lead to members of one clique, or to one type,
lead to one type of the result, of the kind that they led to, however many rounds follow and whether the
last one is kept or not. -/
theorem combine_collapses_cliques (done : (settings.combine registry g).result = .ok h)
    (searched : g.similarityCliques settings.search = .ok cliques) {x y : String} {a b : Ref}
    (left : g.top? x = some a) (right : g.top? y = some b)
    (together : a = b ∨ ∃ clique ∈ cliques, a ∈ clique ∧ b ∈ clique) :
    ∃ n, h.top? x = some n ∧ h.top? y = some n ∧ h.kind? n = g.kind? a := by
  obtain ⟨image, rebinds, merged⟩ := exists_rebinds_of_combine done searched
  have topA := Graph.mem_values_of_top? left
  have same : image a = image b := by
    rcases together with rfl | ⟨clique, listed, inA, inB⟩
    · rfl
    · exact merged clique listed a inA b inB topA (Graph.mem_values_of_top? right)
  refine ⟨image a, ?_, ?_, rebinds.kind a topA⟩
  · rw [rebinds.top?_eq, left]
    rfl
  · rw [rebinds.top?_eq, right, same]
    rfl

/-- The twins are members of a clique, and their names lead to one record of the result. -/
theorem combine_collapses_twins :
    (Settings.standard.combine .standard twins).result = .ok mergedTwins ∧
      ∃ n, mergedTwins.top? "A" = some n ∧ mergedTwins.top? "B" = some n ∧
        mergedTwins.kind? n = some .record := by
  refine ⟨combine_twins, ?_⟩
  have left : twins.top? "A" = some 1 := by decide
  have right : twins.top? "B" = some 2 := by decide
  exact combine_collapses_cliques combine_twins similarityCliques_twins left right
    (.inr ⟨[1, 2], List.mem_cons_self, by decide, by decide⟩)

end Settings

end SchemaGraph
