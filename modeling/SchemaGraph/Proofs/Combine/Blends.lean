import Mathlib
import SchemaGraph.Proofs.Combine.Rounds
import SchemaGraph.Proofs.Documents.Replace
/-!
# Proofs.Combine.Blends -- what the records of the result are made of

A record of a new graph is a blend of records of the old one: it has their properties, a property is
required only if each of them requires it, and it is fixed if one of them is
(`Plan.Replaces.exists_blend`). A copy is the blend of one record. Blends of blends are blends
(`Graph.BlendOf.trans`), so what holds of a round holds of a whole run
(`Settings.blends_of_combine`).

Fixed records are not to be restructured, and no clique has a fixed member unless the settings allow it.
But the types of a property of merged records are merged whatever they are, fixed or not. So a fixed
record of the result either has the layout of a fixed record of the source, or is a blend of several
records (`Settings.fixed_records_of_combine`), and the second does happen
(`Settings.fixed_record_is_restructured`).
-/

namespace SchemaGraph

set_option autoImplicit false

open Relation

/-! ## Blends of records -/

namespace Record

variable {alphabetize : Bool} {olds : List Record} {new old : Record}

/-- The record has the property, and no object may lack it. -/
def Requires (record : Record) (name : String) : Prop :=
  ∃ p, record.property? name = some p ∧ p.optional = false

/-- Two records have the same properties, up to their order and their types, and each is optional in
both or in neither. -/
def SameLayout (a b : Record) : Prop :=
  ∀ name, (a.property? name).map Property.optional = (b.property? name).map Property.optional

/-- The record is what several records come to together. -/
structure Blends (alphabetize : Bool) (olds : List Record) (new : Record) : Prop where
  names : new.properties.keys =
    arranged alphabetize (firsts (olds.flatMap fun old => old.properties.keys))
  requires : ∀ name, new.Requires name ↔ ∀ old ∈ olds, old.Requires name
  fixed : new.fixed = olds.any Record.fixed

theorem requires_iff {record : Record} {name : String} :
    record.Requires name ↔
      ∃ entry ∈ record.properties.entries, entry.1 = name ∧ entry.2.optional = false := by
  constructor
  · rintro ⟨p, found, required⟩
    exact ⟨(name, p), OrderedMap.get?_eq_some_iff.1 found, rfl, required⟩
  · rintro ⟨⟨_, p⟩, listed, rfl, required⟩
    exact ⟨p, OrderedMap.get?_eq_some_iff.2 listed, required⟩

theorem sameLayout_of {a b : Record}
    (names : ∀ name, name ∈ a.properties.keys ↔ name ∈ b.properties.keys)
    (requires : ∀ name, a.Requires name ↔ b.Requires name) : a.SameLayout b := by
  intro name
  have keys : (∃ p, a.property? name = some p) ↔ ∃ q, b.property? name = some q := by
    have both := names name
    rwa [OrderedMap.mem_keys_iff, OrderedMap.mem_keys_iff] at both
  have required := requires name
  simp only [Requires] at required
  cases left : a.property? name with
  | none =>
    cases right : b.property? name with
    | none => rfl
    | some q => simp [left, right] at keys
  | some p =>
    cases right : b.property? name with
    | none => simp [left, right] at keys
    | some q =>
      rw [left, right] at required
      cases first : p.optional <;> cases second : q.optional <;> simp [first, second] at required ⊢

/-- A blend of one record, however often, has its layout. -/
theorem Blends.sameLayout (blends : Blends alphabetize olds new) (listed : old ∈ olds)
    (only : ∀ other ∈ olds, other = old) : new.SameLayout old := by
  refine sameLayout_of (fun name => ?_) fun name => ?_
  · rw [blends.names, mem_arranged, mem_firsts, List.mem_flatMap]
    constructor
    · rintro ⟨other, member, key⟩
      exact only other member ▸ key
    · exact fun key => ⟨old, listed, key⟩
  · rw [blends.requires]
    constructor
    · exact fun all => all old listed
    · exact fun required other member => only other member ▸ required

/-- A blend of blends is a blend of all that they are made of. -/
theorem Blends.trans {mids : List Record} {parts : List (List Record)}
    (outer : Blends alphabetize mids new)
    (inner : List.Forall₂ (fun mid olds => Blends alphabetize olds mid) mids parts) :
    Blends alphabetize parts.flatten new where
  names := by
    have keys : (mids.map fun mid => mid.properties.keys) = parts.map fun olds =>
        arranged alphabetize (firsts (olds.flatMap fun old => old.properties.keys)) :=
      map_eq_map_of_forall₂ inner fun _ _ _ _ blends => blends.names
    have all : mids.flatMap (fun mid => mid.properties.keys) = parts.flatMap fun olds =>
        arranged alphabetize (firsts (olds.flatMap fun old => old.properties.keys)) := by
      rw [List.flatMap_def, keys, ← List.flatMap_def]
    rw [outer.names, all, arranged_firsts_flatMap, ← List.flatMap_id (L := parts), List.flatMap_assoc]
    rfl
  requires name := by
    rw [outer.requires]
    constructor
    · intro all old listed
      obtain ⟨olds, part, member⟩ := List.mem_flatten.1 listed
      obtain ⟨mid, inMids, blends⟩ := exists_of_mem_right inner part
      exact (blends.requires name).1 (all mid inMids) old member
    · intro all mid listed
      obtain ⟨olds, part, blends⟩ := exists_of_mem_left inner listed
      exact (blends.requires name).2 fun old member =>
        all old (List.mem_flatten.2 ⟨olds, part, member⟩)
  fixed := by
    rw [outer.fixed, Bool.eq_iff_iff, List.any_eq_true, List.any_eq_true]
    constructor
    · rintro ⟨mid, listed, fixed⟩
      obtain ⟨olds, part, blends⟩ := exists_of_mem_left inner listed
      rw [blends.fixed, List.any_eq_true] at fixed
      obtain ⟨old, member, fixed⟩ := fixed
      exact ⟨old, List.mem_flatten.2 ⟨olds, part, member⟩, fixed⟩
    · rintro ⟨old, listed, fixed⟩
      obtain ⟨olds, part, member⟩ := List.mem_flatten.1 listed
      obtain ⟨mid, inMids, blends⟩ := exists_of_mem_right inner part
      refine ⟨mid, inMids, ?_⟩
      rw [blends.fixed]
      exact List.any_eq_true.2 ⟨old, member, fixed⟩

/-- A target keeps a blend, or sorts its names. -/
theorem Blends.normalize (blends : Blends false olds old) {target : Target} {node : Node}
    (type : node.type = .record old) (found : (target.normalize node).type = .record new) :
    Blends target.alphabetize olds new := by
  obtain ⟨final, again, fixed, perm⟩ := target.record_normalize node type
  have same : new = final := Ty.record.inj (found.symm.trans again)
  subst same
  refine ⟨?_, fun name => ?_, fixed.trans blends.fixed⟩
  · rw [target.keys_normalize node type found, blends.names]
    rfl
  · rw [← blends.requires, requires_iff, requires_iff]
    simp only [perm.mem_iff]

/-- A record over other types is a blend of the record alone. -/
theorem Blends.retype {rel : Ref → Ref → Prop} {news : List Ref}
    {distinct : ((Ty.retype old.properties.entries news).map Prod.fst).Nodup}
    (related : List.Forall₂ rel (old.properties.entries.map fun entry => entry.2.type) news) :
    Blends false [old] { old with properties := ⟨Ty.retype old.properties.entries news, distinct⟩ } where
  names := by
    have keys : (Ty.retype old.properties.entries news).map Prod.fst = old.properties.keys :=
      Ty.keys_retype _ _
    simpa [arranged, OrderedMap.keys] using keys.trans (firsts_of_nodup old.properties.nodup).symm
  requires name := by
    have entries := Ty.forall₂_retype related
    simp only [requires_iff, List.forall_mem_singleton]
    constructor
    · rintro ⟨entry, listed, sameName, required⟩
      obtain ⟨before, there, name, optional, _⟩ := exists_of_mem_right entries listed
      exact ⟨before, there, name.symm.trans sameName, optional.symm.trans required⟩
    · rintro ⟨entry, listed, sameName, required⟩
      obtain ⟨after, there, name, optional, _⟩ := exists_of_mem_left entries listed
      exact ⟨after, there, name.trans sameName, optional.trans required⟩
  fixed := by simp

end Record

/-! ## Blends of records of a graph -/

namespace Graph

variable {f g h : Graph} {alphabetize : Bool} {types : List Ref} {r : Record}

/-- The record is a blend of the records that the types designate, all of them reachable. -/
structure BlendOf (g : Graph) (alphabetize : Bool) (types : List Ref) (r : Record) : Prop where
  nonempty : types ≠ []
  records : ∀ t ∈ types, t ∈ g.reachableOf .record
  blends : Record.Blends alphabetize (types.filterMap g.record?) r

/-- Some reachable fixed record of the graph has the layout of the record. -/
def Pins (g : Graph) (r : Record) : Prop :=
  ∃ s ∈ g.reachable, ∃ old, g.record? s = some old ∧ old.fixed = true ∧ r.SameLayout old

theorem exists_record? {t : Ref} (listed : t ∈ g.reachableOf .record) :
    ∃ record, g.record? t = some record := by
  obtain ⟨record, type, _⟩ := g.exists_candidate listed
  exact ⟨record, g.record?_eq_some_iff.2 type⟩

/-- Records that types designate, one by one. -/
theorem forall₂_record? {α : Type} {rel : Record → α → Prop} {xs : List α}
    (related : List.Forall₂ (fun t x => ∃ record, g.record? t = some record ∧ rel record x) types xs) :
    List.Forall₂ rel (types.filterMap g.record?) xs := by
  induction related with
  | nil => exact .nil
  | cons here _ ih =>
    obtain ⟨record, found, holds⟩ := here
    rw [List.filterMap_cons_some found]
    exact .cons holds ih

/-- A blend of blends is a blend of all that they are made of. -/
theorem BlendOf.trans (outer : g.BlendOf alphabetize types r)
    (inner : ∀ t record, g.record? t = some record →
      ∃ olds, f.BlendOf alphabetize olds record) : ∃ olds, f.BlendOf alphabetize olds r := by
  have each : ∀ t ∈ types, ∃ olds record, g.record? t = some record ∧
      f.BlendOf alphabetize olds record := by
    intro t listed
    obtain ⟨record, found⟩ := exists_record? (outer.records t listed)
    obtain ⟨olds, blend⟩ := inner t record found
    exact ⟨olds, record, found, blend⟩
  obtain ⟨parts, related⟩ := exists_forall₂ each
  refine ⟨parts.flatten, ?_, ?_, ?_⟩
  · obtain ⟨t, listed⟩ := List.exists_mem_of_ne_nil types outer.nonempty
    obtain ⟨olds, part, record, _, blend⟩ := exists_of_mem_left related listed
    obtain ⟨old, member⟩ := List.exists_mem_of_ne_nil olds blend.nonempty
    exact List.ne_nil_of_mem (List.mem_flatten.2 ⟨olds, part, member⟩)
  · intro old listed
    obtain ⟨olds, part, member⟩ := List.mem_flatten.1 listed
    obtain ⟨t, _, record, _, blend⟩ := exists_of_mem_right related part
    exact blend.records old member
  · have inner : List.Forall₂ (fun mid olds => Record.Blends alphabetize olds mid)
        (types.filterMap g.record?) (parts.map fun olds => olds.filterMap f.record?) := by
      rw [List.forall₂_map_right_iff]
      refine forall₂_record? (related.imp fun t olds => ?_)
      rintro ⟨record, found, blend⟩
      exact ⟨record, found, blend.blends⟩
    have blends := outer.blends.trans inner
    rwa [← List.filterMap_flatten] at blends

end Graph

/-! ## Blends of a round -/

namespace Plan

variable {plan : Plan} {conflate : Bool} {target : Target} {trace : Trace} {h : Graph}

/-- What is built for the contributors to a record is their blend. -/
theorem Builds.blends {refs : OrderedSet Ref} {kind : Kind} {built : Record}
    (builds : plan.Builds trace refs kind (.record built)) (some_record : plan.source.recordsOf refs ≠ []) :
    Record.Blends false (plan.source.recordsOf refs) built := by
  cases builds with
  | record related =>
    refine ⟨keys_merged related, fun name => ?_, rfl⟩
    constructor
    · rintro ⟨q, found, required⟩
      obtain ⟨optional, _⟩ := exists_mergeProperty related found
      rw [required] at optional
      exact optional_mergeProperty_eq_false_iff.1 optional.symm
    · intro all
      obtain ⟨record, listed⟩ := List.exists_mem_of_ne_nil _ some_record
      have key := OrderedMap.mem_keys_iff.2 ((all record listed).imp fun _ => And.left)
      have there : name ∈ (plan.source.recordsOf refs).flatMap fun record => record.properties.keys :=
        List.mem_flatMap.2 ⟨record, listed, key⟩
      rw [← mem_firsts, ← keys_merged related] at there
      obtain ⟨q, found⟩ := OrderedMap.mem_keys_iff.1 there
      obtain ⟨optional, _⟩ := exists_mergeProperty related found
      exact ⟨q, found, optional.trans (optional_mergeProperty_eq_false_iff.2 all)⟩

/-- The copy of a record is its blend. -/
theorem Realises.blend_of_copy (cliques : plan.OfCliques) {old : Ref} {raw : Node} {built : Record}
    (realises : plan.Realises conflate trace (.copy old) raw) (type : raw.type = .record built)
    (reached : plan.Reached old) : plan.source.BlendOf false [old] built := by
  have kind := realises.kind_of_copy
  rw [Node.kind, type] at kind
  cases realises with
  | copy found children =>
    rename_i source news
    obtain ⟨sourceType, attributes⟩ := source
    cases sourceType with
    | record record =>
      cases type
      have isRecord : plan.source.record? old = some record := by
        rw [Graph.record?, Graph.type?, found]
        rfl
      refine ⟨List.cons_ne_nil _ _, ?_, ?_⟩
      · intro t listed
        rw [List.mem_singleton.1 listed]
        exact plan.source.mem_reachableOf.2 ⟨cliques.reachable_of_reached reached, kind⟩
      · rw [List.filterMap_cons_some isRecord, List.filterMap_nil]
        exact .retype (by simpa [Node.children, Ty.children, OrderedMap.values] using children)
    | primitive p => cases type
    | array items => cases news <;> cases type
    | map values => cases news <;> cases type
    | enum cases => cases type
    | union members => cases type

/-- A record that several types merge into is the blend of its contributors. -/
theorem Realises.blend_of_merge (cliques : plan.OfCliques) {types : OrderedSet Ref} {raw : Node}
    {built : Record} (realises : plan.Realises conflate trace (.merge types) raw)
    (type : raw.type = .record built) (reached : ∀ r ∈ types, plan.Reached r) :
    ∃ refs, plan.source.BlendOf false refs built := by
  cases realises with
  | union several members => cases type
  | part single builds =>
    rename_i refs kind rawType attributes
    cases type
    have isRecord : kind = .record := builds.kind_eq.symm
    subst isRecord
    have part := Graph.Part.of_contributors_eq single
    obtain ⟨r, member⟩ := part.exists_mem
    have listed : ∀ t ∈ refs.toList, t ∈ plan.source.reachableOf .record := by
      intro t inside
      have known := cliques.reachable_of_reached (reached_of_part reached part t inside)
      exact plan.source.mem_reachableOf.2 ⟨known, part.kind_of_record inside⟩
    obtain ⟨record, isRecord⟩ := Graph.exists_record? (listed r member)
    have some_record : plan.source.recordsOf refs ≠ [] :=
      List.ne_nil_of_mem (List.mem_filterMap.2 ⟨r, member, isRecord⟩)
    exact ⟨refs.toList, List.ne_nil_of_mem member, listed, builds.blends some_record⟩

/-- A record of a round's result is a blend of records of its source. -/
theorem Replaces.exists_blend (replaces : plan.Replaces conflate target h trace)
    (cliques : plan.OfCliques) {n : Ref} {r : Record} (found : h.record? n = some r) :
    ∃ types, plan.source.BlendOf target.alphabetize types r := by
  obtain ⟨node, here, type⟩ := Option.map_eq_some_iff.1 (h.record?_eq_some_iff.1 found)
  obtain ⟨origin, traced⟩ := replaces.traced (h.lt_of_type? (h.record?_eq_some_iff.1 found))
  obtain ⟨raw, realises, rfl⟩ := replaces.explains traced here
  obtain ⟨built, rawType⟩ : ∃ built, raw.type = .record built := by
    refine Ty.exists_record_of_kind ?_
    have kind := target.kind_normalize raw
    rw [Node.kind, type] at kind
    exact kind.symm
  have finished : ∀ {types}, plan.source.BlendOf false types built →
      plan.source.BlendOf target.alphabetize types r := fun blend =>
    ⟨blend.nonempty, blend.records, blend.blends.normalize rawType type⟩
  cases origin with
  | copy old =>
    obtain ⟨reached, _⟩ := replaces.known traced
    exact ⟨[old], finished (realises.blend_of_copy cliques rawType reached)⟩
  | merge types =>
    obtain ⟨refs, blend⟩ := realises.blend_of_merge cliques rawType (replaces.known traced)
    exact ⟨refs, finished blend⟩
  | group index =>
    cases realises with
    | group listed merged =>
      have reached : ∀ t ∈ OrderedSet.ofList _, plan.Reached t := fun t member =>
        .member (List.mem_of_getElem? listed) (OrderedSet.mem_ofList.1 member)
      obtain ⟨refs, blend⟩ := merged.blend_of_merge cliques rawType reached
      exact ⟨refs, finished blend⟩

end Plan

namespace Settings

variable {settings : Settings} {registry : Registry} {g h : Graph}

/-! ## Blends of a run -/

/-- The records of the result are blends of records of the graph that was combined. -/
theorem blends_of_combine (done : (settings.combine registry g).result = .ok h) {n : Ref} {r : Record}
    (found : h.record? n = some r) : ∃ types, g.BlendOf settings.target.alphabetize types r := by
  have round : ∀ {before after}, settings.RoundTo registry before after → ∀ n r,
      after.record? n = some r → ∃ types, before.BlendOf settings.target.alphabetize types r := by
    intro before after round n r found
    obtain ⟨plan, trace, rfl, _, cliques, replaces⟩ := round.exists_plan
    exact replaces.exists_blend cliques found
  have all : ∀ n r, h.record? n = some r → ∃ types, g.BlendOf settings.target.alphabetize types r := by
    refine combine_induction_of_first done round fun last before n r found => ?_
    obtain ⟨types, blend⟩ := round last n r found
    exact blend.trans before
  exact all n r found

/-! ## Fixed records -/

/-- No clique has a fixed member, in any round, unless the settings allow it. A fixed record of the
result has the layout of a fixed record of the graph that was combined, or it is a blend of several
records, one of which is fixed. -/
theorem fixed_records_of_combine (apart : settings.search.includeFixed = false)
    (done : (settings.combine registry g).result = .ok h) :
    (∀ before cliques, ReflTransGen (settings.RoundTo registry) g before →
      before.similarityCliques settings.search = .ok cliques → ∀ clique ∈ cliques, ∀ t ∈ clique,
      ∀ old, before.record? t = some old → old.fixed = false) ∧
    ∀ n ∈ h.reachable, ∀ r, h.record? n = some r → r.fixed = true →
      g.Pins r ∨ ∃ types, g.BlendOf settings.target.alphabetize types r ∧
        (∃ s ∈ types, ∃ old, g.record? s = some old ∧ old.fixed = true) ∧
        ∃ s ∈ types, ∃ t ∈ types, s ≠ t := by
  constructor
  · intro before cliques _ found clique listed t inside old isRecord
    obtain ⟨_, record, same, passes⟩ := before.eligible_of_mem_clique found listed inside
    rw [isRecord] at same
    cases same
    exact passes.resolve_left (by rw [apart]; exact Bool.false_ne_true)
  · intro n _ r found fixed
    obtain ⟨types, blend⟩ := blends_of_combine done found
    have some_fixed : ∃ s ∈ types, ∃ old, g.record? s = some old ∧ old.fixed = true := by
      have all := blend.blends.fixed.symm.trans fixed
      obtain ⟨old, listed, fixed⟩ := List.any_eq_true.1 all
      obtain ⟨s, member, isRecord⟩ := List.mem_filterMap.1 listed
      exact ⟨s, member, old, isRecord, fixed⟩
    obtain ⟨s, member, old, isRecord, isFixed⟩ := some_fixed
    -- a record may be listed more than once, and blending it with itself keeps its layout
    by_cases several : ∃ t ∈ types, s ≠ t
    · obtain ⟨t, other, differ⟩ := several
      exact .inr ⟨types, blend, ⟨s, member, old, isRecord, isFixed⟩, s, member, t, other, differ⟩
    · refine .inl ⟨s, (g.mem_reachableOf.1 (blend.records s member)).1, old, isRecord, isFixed, ?_⟩
      refine blend.blends.sameLayout (List.mem_filterMap.2 ⟨s, member, isRecord⟩) ?_
      intro other listed
      obtain ⟨t, inside, isOther⟩ := List.mem_filterMap.1 listed
      have same : s = t := by_contra fun differ => several ⟨t, inside, differ⟩
      rw [← same, isRecord] at isOther
      exact (Option.some.inj isOther).symm

/-- Three similar records. The second and the third have a property that the first lacks, and its type
is another fixed record in each. -/
def stamped : Graph :=
  ⟨#[⟨.primitive .string, .empty⟩, .required [("a", 0), ("b", 0), ("c", 0), ("d", 0)] false,
      .required [("a", 0), ("b", 0), ("c", 0), ("p", 4)] false,
      .required [("a", 0), ("b", 0), ("c", 0), ("p", 5)] false,
      .required [("x", 0)] true, .required [("y", 0)] true],
    .ofList [("S", 1), ("C", 2), ("D", 3)], firstFault?_eq_none_iff.1 (by decide +kernel)⟩

/-- A fixed record that is optional in both properties. -/
def looseStamp : Record := ⟨.ofList [("x", ⟨1, true⟩), ("y", ⟨1, true⟩)], true⟩

/-- What combining makes of them: one record, and one fixed record for the property. -/
def mergedStamped : Graph :=
  ⟨#[⟨.record ⟨.ofList [("a", ⟨1, false⟩), ("b", ⟨1, false⟩), ("c", ⟨1, false⟩), ("d", ⟨1, true⟩),
        ("p", ⟨2, true⟩)], false⟩, .empty⟩, ⟨.primitive .string, .empty⟩, ⟨.record looseStamp, .empty⟩],
    .ofList [("S", 0), ("C", 0), ("D", 0)], firstFault?_eq_none_iff.1 (by decide +kernel)⟩

theorem combine_stamped :
    (Settings.standard.combine .standard stamped).result = .ok mergedStamped := by
  have searched : stamped.similarityCliques Settings.standard.search = .ok [[1, 2, 3]] := by
    refine stamped.similarityCliques_eq (by cbv) ?_
    rw [Clique.search_cons]
    cbv
  have ended : mergedStamped.similarityCliques Settings.standard.search = .ok [] := by
    refine mergedStamped.similarityCliques_eq (by cbv) ?_
    rw [Clique.search_cons]
    cbv
  exact combine_of_one_round searched (by cbv) ended

theorem reachable_looseStamp : 2 ∈ mergedStamped.reachable := by
  have all : mergedStamped.reachable = [0, 1, 2] := by cbv
  rw [all]
  decide

/-- No fixed record of the graph has the layout of the one that they are merged into. -/
theorem not_pins_looseStamp : ¬ stamped.Pins looseStamp := by
  rintro ⟨s, listed, old, found, fixed, layout⟩
  have second := layout "y"
  have first := layout "x"
  have all : stamped.reachable = [1, 0, 2, 4, 3, 5] := by cbv
  simp only [all, List.mem_cons, List.not_mem_nil, or_false] at listed
  rcases listed with rfl | rfl | rfl | rfl | rfl | rfl
  · cases found
    cases fixed
  · cases found
  · cases found
    cases fixed
  · cases found
    cases second
  · cases found
    cases fixed
  · cases found
    cases first

/-- In the graph above the fixed record comes of both fixed records. -/
theorem stamped_blends :
    (Settings.standard.search.includeFixed = false ∧
      (Settings.standard.combine .standard stamped).result = .ok mergedStamped) ∧
    ∃ types, stamped.BlendOf false types looseStamp ∧ ∃ s ∈ types, ∃ t ∈ types, s ≠ t := by
  refine ⟨⟨rfl, combine_stamped⟩, ?_⟩
  obtain ⟨_, fixed⟩ := fixed_records_of_combine rfl combine_stamped
  rcases fixed 2 reachable_looseStamp looseStamp rfl rfl with pinned | ⟨types, blend, _, several⟩
  · exact absurd pinned not_pins_looseStamp
  · exact ⟨types, blend, several⟩

/-- Combining may restructure a fixed record, though the settings exclude fixed records. -/
theorem fixed_record_is_restructured :
    ¬ ∀ (settings : Settings) (registry : Registry) (g h : Graph), g.UnionsEnd →
      settings.search.includeFixed = false → (settings.combine registry g).result = .ok h →
      ∀ n ∈ h.reachable, ∀ r, h.record? n = some r → r.fixed = true → g.Pins r := by
  intro pinned
  have ends : stamped.UnionsEnd := stamped.unionsEnd_of_lt (by decide)
  exact not_pins_looseStamp
    (pinned .standard .standard stamped mergedStamped ends rfl combine_stamped 2
      reachable_looseStamp looseStamp rfl rfl)

end Settings

end SchemaGraph
