import SchemaGraph.Proofs.Combine.Blends
/-!
# Proofs.Combine.Provenance -- combining adds nothing

Merging could satisfy every reader by making everything any, or every property optional. It does
neither. A record of the result has no property, and leaves none optional, that the records it is made
of do not account for (`Graph.BlendOf`), and a kind of type that the result has, unions apart, the
graph that was combined has too: a copy keeps its kind, and a merge of one part has the kind of a type
among its contributors (`Plan.Replaces.exists_kind`). Both are carried from round to round
(`Settings.combine_adds_nothing`).
-/

namespace SchemaGraph

set_option autoImplicit false

/-! ## What a blend leaves out -/

/-- An object of the record need not have the property: the record lacks it, or has it as optional. -/
def Record.Spares (record : Record) (name : String) : Prop :=
  record.property? name = none ∨ ∃ p, record.property? name = some p ∧ p.optional = true

theorem Record.spares_iff {record : Record} {name : String} :
    record.Spares name ↔ ¬ record.Requires name := by
  unfold Spares Requires
  cases record.property? name with
  | none => simp
  | some p => cases optional : p.optional <;> simp [optional]

namespace Graph

variable {g : Graph} {alphabetize : Bool} {types : List Ref} {r : Record}

/-- A property of a blend is optional just if some record that it is made of spares it. -/
theorem BlendOf.optional_iff (blend : g.BlendOf alphabetize types r) {name : String} {p : Property}
    (found : r.property? name = some p) :
    p.optional = true ↔ ∃ t ∈ types, ∃ old, g.record? t = some old ∧ old.Spares name := by
  have required : p.optional = false ↔ r.Requires name := by
    constructor
    · exact fun required => ⟨p, found, required⟩
    · rintro ⟨q, same, required⟩
      rw [found] at same
      cases same
      exact required
  rw [← Bool.not_eq_false, not_congr required, blend.blends.requires]
  simp only [List.mem_filterMap, Record.spares_iff]
  constructor
  · intro some_spares
    by_contra none_spares
    refine some_spares fun old ⟨t, listed, isRecord⟩ => ?_
    by_contra spares
    exact none_spares ⟨t, listed, old, isRecord, spares⟩
  · rintro ⟨t, listed, old, isRecord, spares⟩ all
    exact spares (all old ⟨t, listed, isRecord⟩)

/-- A blend is fixed just if some record that it is made of is. -/
theorem BlendOf.fixed_iff (blend : g.BlendOf alphabetize types r) :
    r.fixed = true ↔ ∃ t ∈ types, ∃ old, g.record? t = some old ∧ old.fixed = true := by
  rw [blend.blends.fixed, List.any_eq_true]
  simp only [List.mem_filterMap]
  constructor
  · rintro ⟨old, ⟨t, listed, isRecord⟩, fixed⟩
    exact ⟨t, listed, old, isRecord, fixed⟩
  · rintro ⟨t, listed, old, isRecord, fixed⟩
    exact ⟨old, ⟨t, listed, isRecord⟩, fixed⟩

end Graph

/-! ## Kinds of a round -/

/-- A type of a round's result, unless it is a union, has the kind of a type that the source comes
to. -/
theorem Plan.Replaces.exists_kind {plan : Plan} {conflate : Bool} {target : Target} {trace : Trace}
    {h : Graph} (replaces : plan.Replaces conflate target h trace) (records : plan.OfRecords) {n : Ref}
    {kind : Kind} (found : h.kind? n = some kind) (plain : kind ≠ .union) :
    ∃ m, plan.Reached m ∧ plan.source.kind? m = some kind := by
  obtain ⟨node, here, rfl⟩ := Option.map_eq_some_iff.1 found
  obtain ⟨type, isType, _⟩ := h.exists_type?_of_kind? found
  obtain ⟨origin, traced⟩ := replaces.traced (h.lt_of_type? isType)
  obtain ⟨raw, realises, rfl⟩ := replaces.explains traced here
  rw [target.kind_normalize] at plain ⊢
  cases origin with
  | copy old => exact ⟨old, (replaces.known traced).1, realises.kind_of_copy⟩
  | merge types =>
    have reached := replaces.known traced
    cases realises with
    | union several members => exact absurd rfl plain
    | part single builds =>
      have part := (plan.source.mem_contributors conflate).1 (single ▸ List.mem_cons_self)
      obtain ⟨m, member, kind⟩ := part.exists_kind
      refine ⟨m, reached_of_part reached part m member, ?_⟩
      rw [kind, Node.kind, builds.kind_eq]
  | group index =>
    have kind := realises.kind_of_group records
    cases realises with
    | @group _ members _ listed merged =>
      have group := List.mem_of_getElem? listed
      obtain ⟨m, member⟩ := List.exists_mem_of_ne_nil members (plan.nonempty members group)
      refine ⟨m, .member group member, ?_⟩
      rw [records members group m member, kind]

/-! ## Runs -/

namespace Settings

variable {settings : Settings} {registry : Registry} {g h : Graph}

/-- The kinds of the result, unions apart, are kinds of the graph that was combined. -/
theorem kinds_of_combine (done : (settings.combine registry g).result = .ok h) {n : Ref} {kind : Kind}
    (reached : n ∈ h.reachable) (found : h.kind? n = some kind) (plain : kind ≠ .union) :
    ∃ m ∈ g.reachable, g.kind? m = some kind := by
  have step : ∀ {before after : Graph}, settings.RoundTo registry before after →
      (∀ n ∈ before.reachable, before.kind? n = some kind → ∃ m ∈ g.reachable, g.kind? m = some kind) →
      ∀ n ∈ after.reachable, after.kind? n = some kind → ∃ m ∈ g.reachable, g.kind? m = some kind := by
    intro before after round soFar n _ found
    obtain ⟨plan, trace, rfl, _, cliques, replaces⟩ := round.exists_plan
    obtain ⟨m, reached, kindM⟩ := replaces.exists_kind cliques.records found plain
    exact soFar m (cliques.reachable_of_reached reached) kindM
  exact combine_induction done (fun n reached found => ⟨n, reached, found⟩) step n reached found

/-- Combining adds nothing of its own. Every record of the result is put together from records of the
graph that was combined: it has their properties in the order of their first occurrence, or by name,
a property is optional just if one of them spares it, and it is fixed just if one of them is. Every
kind of type in the result, unions apart, is a kind of type in that graph. -/
theorem combine_adds_nothing (done : (settings.combine registry g).result = .ok h) :
    (∀ n ∈ h.reachable, ∀ r, h.record? n = some r →
      ∃ types, g.BlendOf settings.target.alphabetize types r ∧
        (∀ name p, r.property? name = some p → (p.optional = true ↔
          ∃ t ∈ types, ∃ old, g.record? t = some old ∧ old.Spares name)) ∧
        (r.fixed = true ↔ ∃ t ∈ types, ∃ old, g.record? t = some old ∧ old.fixed = true)) ∧
    ∀ n ∈ h.reachable, ∀ kind, kind ≠ .union → h.kind? n = some kind →
      ∃ m ∈ g.reachable, g.kind? m = some kind := by
  constructor
  · intro n _ r found
    obtain ⟨types, blend⟩ := blends_of_combine done found
    exact ⟨types, blend, fun _ _ found => blend.optional_iff found, blend.fixed_iff⟩
  · exact fun n reached kind plain found => kinds_of_combine done reached found plain

/-- The fixed record that two fixed records are merged into has their properties and no others; both are
optional, since one of the two lacks each. -/
theorem stamped_adds_nothing :
    (Settings.standard.combine .standard stamped).result = .ok mergedStamped ∧
      ∃ types, stamped.BlendOf false types looseStamp ∧
        (∃ t ∈ types, ∃ old, stamped.record? t = some old ∧ old.Spares "x") ∧
        ∃ t ∈ types, ∃ old, stamped.record? t = some old ∧ old.fixed = true := by
  refine ⟨combine_stamped, ?_⟩
  obtain ⟨records, _⟩ := combine_adds_nothing combine_stamped
  obtain ⟨types, blend, optional, fixed⟩ := records 2 reachable_looseStamp looseStamp rfl
  exact ⟨types, blend, (optional "x" ⟨1, true⟩ rfl).1 rfl, fixed.1 rfl⟩

end Settings

end SchemaGraph
