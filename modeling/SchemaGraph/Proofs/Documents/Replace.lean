import SchemaGraph.Proofs.Documents.Basic
import SchemaGraph.Proofs.Draft.Replacement
import SchemaGraph.Proofs.Merge.Constituents
/-!
# Proofs.Documents.Replace -- replacing groups loses no document

Whatever belongs to a type of the source belongs to every type of the new graph that stands for it:
for its copy, for its group, or for the merge of a set that has the type among its leaves
(`Plan.Replaces.carries`). The induction is on the derivation that a document belongs to a type, a
layer at a time. Merging only widens a layer (`Plan.Builds.admits`): a kind that subsumes another
admits what that one does, constituents become merges of sets that they are in, and a property is
asked for only if every record asks for it.
-/

namespace SchemaGraph

set_option autoImplicit false

namespace Plan

variable {plan : Plan} {conflate : Bool} {target : Target} {trace : Trace}

/-! ## One layer -/

section Layer

variable {refs : OrderedSet Ref} {P Q : Value → Ref → Prop} {doc : Value} {r : Ref}

/-- A property of the merged record is that of a name, over all the records. -/
theorem exists_mergeProperty {records : List Record} {properties : OrderedMap String Property}
    (related : List.Forall₂ (plan.PropertyOf trace) (mergeProperties records) properties.entries)
    {name : String} {q : Property} (found : properties.get? name = some q) :
    q.optional = (mergeProperty records name).optional ∧
      plan.MergeOf trace (mergeProperty records name).types q.type := by
  obtain ⟨property, there, same⟩ :=
    exists_of_mem_right related (OrderedMap.get?_eq_some_iff.1 found)
  obtain ⟨other, _, rfl⟩ := mem_mergeProperties.1 there
  have sameName : name = other := same.name
  subst sameName
  exact ⟨same.optional, same.type⟩

/-- The merged record has the names of all the records. -/
theorem keys_merged {records : List Record} {properties : OrderedMap String Property}
    (related : List.Forall₂ (plan.PropertyOf trace) (mergeProperties records) properties.entries) :
    properties.keys = firsts (records.flatMap fun record => record.properties.keys) := by
  rw [← names_mergeProperties]
  exact (map_eq_map_of_forall₂ related fun _ _ _ _ same => same.name.symm).symm

/-- The merged record admits what one of the records does. -/
theorem admits_record {record merged : Record} (listed : record ∈ plan.source.recordsOf refs)
    (related : List.Forall₂ (plan.PropertyOf trace) (mergeProperties (plan.source.recordsOf refs))
      merged.properties.entries)
    (carry : ∀ {d s set n}, P d s → s ∈ set → plan.MergeOf trace set n → Q d n)
    (admits : (Ty.record record).Admits P doc) : (Ty.record merged).Admits Q doc := by
  refine .record_of ?_ ?_ ?_ admits
  · intro name key
    rw [keys_merged related, mem_firsts]
    exact List.mem_flatMap.2 ⟨record, listed, key⟩
  · intro name p q there found d belongs
    obtain ⟨_, stands⟩ := exists_mergeProperty related found
    exact carry belongs (mem_types_mergeProperty.2 ⟨record, listed, p, there, rfl⟩) stands
  · intro name q found notOptional
    obtain ⟨optional, _⟩ := exists_mergeProperty related found
    rw [notOptional] at optional
    exact optional_mergeProperty_eq_false_iff.1 optional.symm record listed

/-- What is built for the contributors to a kind, by the kind. -/
theorem Builds.inv {kind : Kind} {built : Ty} (builds : plan.Builds trace refs kind built) :
    match kind with
    | .enum => built = .enum (plan.source.casesOf refs)
    | .array => ∃ items, built = .array items ∧ plan.MergeOf trace (plan.source.itemsOf refs) items
    | .map => ∃ values, built = .map values ∧ plan.MergeOf trace (plan.source.valuesOf refs) values
    | .record => ∃ merged, built = .record merged ∧
        List.Forall₂ (plan.PropertyOf trace) (mergeProperties (plan.source.recordsOf refs))
          merged.properties.entries
    | .union => False
    | other => ∃ p : Primitive, p.kind = other ∧ built = .primitive p := by
  cases builds with
  | primitive p => cases p <;> exact ⟨_, rfl, rfl⟩
  | enum => exact rfl
  | array items => exact ⟨_, rfl, items⟩
  | map values => exact ⟨_, rfl, values⟩
  | record related => exact ⟨_, rfl, related⟩

theorem Builds.eq_primitive {p : Primitive} {built : Ty}
    (builds : plan.Builds trace refs p.kind built) : built = .primitive p :=
  Ty.eq_primitive_of_kind builds.kind_eq

/-- The type that is built for the contributors to a kind admits what each of them does. -/
theorem Builds.admits {kind : Kind} {built type : Ty} (builds : plan.Builds trace refs kind built)
    (member : r ∈ refs) (found : plan.source.type? r = some type) {present : Kind → Bool}
    (subsumed : type.kind.subsumedBy conflate present = kind) (noUnion : type.kind ≠ .union)
    (carry : ∀ {d s set n}, P d s → s ∈ set → plan.MergeOf trace set n → Q d n)
    (admits : type.Admits P doc) : built.Admits Q doc := by
  rcases Kind.subsumedBy_cases subsumed with rfl | rfl | ⟨own, rfl⟩ | ⟨own, rfl⟩ | ⟨own, rfl⟩
  · -- any subsumes every kind
    have top : built = .primitive .any := builds.eq_primitive
    rw [top]
    exact .any
  · -- a kind contributes to itself
    cases type with
    | primitive p =>
      have same : built = .primitive p := builds.eq_primitive
      rw [same]
      exact admits.primitive
    | enum cases =>
      have same : built = .enum (plan.source.casesOf refs) := builds.inv
      rw [same]
      cases admits with
      | enum listed => exact .enum (plan.source.mem_casesOf.2 ⟨r, member, _, found, listed⟩)
    | array items =>
      obtain ⟨merged, rfl, stands⟩ := builds.inv
      cases admits with
      | array belongs =>
        refine .array fun d listed => carry (belongs d listed) ?_ stands
        exact plan.source.mem_itemsOf.2 ⟨r, member, found⟩
    | map values =>
      obtain ⟨merged, rfl, stands⟩ := builds.inv
      cases admits with
      | map belongs =>
        refine .map fun field listed => carry (belongs field listed) ?_ stands
        exact plan.source.mem_valuesOf.2 ⟨r, member, .inl found⟩
    | record record =>
      obtain ⟨merged, rfl, related⟩ := builds.inv
      refine admits_record ?_ related carry admits
      exact plan.source.mem_recordsOf.2 ⟨r, member, found⟩
    | union members => exact absurd rfl noUnion
  · -- string subsumes enumerations
    have text : built = .primitive .string := builds.eq_primitive
    rw [text]
    cases admits with
    | enum => exact .string
    | _ => cases own
  · -- double subsumes integers
    have number : built = .primitive .double := builds.eq_primitive
    rw [number]
    cases admits with
    | integer => exact .whole
    | _ => cases own
  · -- map subsumes records
    obtain ⟨values, rfl, stands⟩ := builds.inv
    cases admits with
    | @record record fields allowed belongs asked =>
      refine .map fun field listed => ?_
      obtain ⟨p, there⟩ := Option.isSome_iff_exists.1
        (OrderedMap.isSome_get?_iff.2 (allowed field listed))
      refine carry (belongs field listed p there) ?_ stands
      refine plan.source.mem_valuesOf.2 ⟨r, member, .inr ⟨record, found, ?_⟩⟩
      have entry := OrderedMap.get?_eq_some_iff.1 there
      exact List.mem_map.2 ⟨p, List.mem_map.2 ⟨_, entry, rfl⟩, rfl⟩
    | _ => cases own

end Layer

/-! ## All layers -/

/-- The new type holds what a merge of the types is made of. -/
def Merges (plan : Plan) (conflate : Bool) (target : Target) (h : Graph) (trace : Trace)
    (types : OrderedSet Ref) (new : Ref) : Prop :=
  ∃ raw, h.node? new = some (target.normalize raw) ∧ plan.Realises conflate trace (.merge types) raw

theorem accepts_of_admits {h : Graph} {doc : Value} {new : Ref} {raw : Node}
    (found : h.node? new = some (target.normalize raw))
    (admits : raw.type.Admits h.Accepts doc) : h.Accepts doc new := by
  have type : h.type? new = some (target.normalize raw).type := by
    rw [Graph.type?, found]
    rfl
  exact .of type admits.normalize

section Carries

variable {h : Graph} (replaces : plan.Replaces conflate target h trace)

include replaces

theorem Replaces.merges {types : OrderedSet Ref} {new : Ref} (traced : trace new (.merge types)) :
    plan.Merges conflate target h trace types new := by
  obtain ⟨node, found⟩ := replaces.exists_node traced
  obtain ⟨raw, realises, rfl⟩ := replaces.explains traced found
  exact ⟨raw, found, realises⟩

theorem Replaces.merges_of_group {index : Nat} {members : List Ref} {new : Ref}
    (listed : plan.groups[index]? = some members) (traced : trace new (.group index)) :
    plan.Merges conflate target h trace (.ofList members) new := by
  obtain ⟨node, found⟩ := replaces.exists_node traced
  obtain ⟨raw, realises, rfl⟩ := replaces.explains traced found
  exact ⟨raw, found, realises.merge_of_group listed⟩

/-- What is remembered as the merge of a set holds the merge of a set with the same elements. -/
theorem Replaces.merges_of_merged {types : OrderedSet Ref} {new : Ref}
    (merged : plan.Merged trace types new) :
    ∃ others, (∀ r, r ∈ others ↔ r ∈ types) ∧ plan.Merges conflate target h trace others new := by
  rcases merged with ⟨others, key, traced⟩ | ⟨index, members, listed, key, traced⟩
  · exact ⟨others, unionKey_eq_iff.1 key, replaces.merges traced⟩
  · exact ⟨.ofList members, unionKey_eq_iff.1 key, replaces.merges_of_group listed traced⟩

/-- The copy of a union is the union of what its members are copied to. -/
theorem Replaces.union_of_copy {old n : Ref} {olds : OrderedSet Ref}
    (traced : trace n (.copy old)) (type : plan.source.type? old = some (.union olds)) :
    ∃ news, h.type? n = some (.union (.ofList news)) ∧
      List.Forall₂ (plan.CopyOf trace) olds.toList news := by
  obtain ⟨node, found⟩ := replaces.exists_node traced
  obtain ⟨raw, realises, rfl⟩ := replaces.explains traced found
  cases realises with
  | @copy _ source news sourceNode related =>
    have sourceType : source.type = .union olds := by
      rw [Graph.type?, sourceNode] at type
      exact Option.some.inj type
    rw [Node.children, sourceType] at related
    refine ⟨news, ?_, related⟩
    have notRecord : (⟨source.type.withChildren news, source.attributes⟩ : Node).kind ≠ .record := by
      simp [Node.kind, Ty.kind, sourceType, Ty.withChildren]
    rw [Graph.type?, found, Option.map_some, target.type_normalize_of_kind _ notRecord, sourceType]
    rfl

/-- The document belongs to whatever stands for the type, alone or in a set that unfolds to it. -/
structure Carries (plan : Plan) (conflate : Bool) (target : Target) (h : Graph) (trace : Trace)
    (doc : Value) (r : Ref) : Prop where
  copy : ∀ {new}, plan.CopyOf trace r new → h.Accepts doc new
  merge : ∀ {types t new}, t ∈ types → plan.source.Unfolds t r →
    plan.Merges conflate target h trace types new → h.Accepts doc new

theorem Replaces.carry_mergeOf {doc : Value} {r : Ref}
    (carries : Carries plan conflate target h trace doc r) {types : OrderedSet Ref} {new : Ref}
    (member : r ∈ types) (stands : plan.MergeOf trace types new) : h.Accepts doc new := by
  unfold MergeOf at stands
  split at stands
  · rename_i index common
    have own := (commonGroup?_eq_some_iff.1 common).2 r member
    refine carries.copy ?_
    simp only [CopyOf, own]
    exact stands
  · rename_i common
    rcases stands with merged | ⟨single, alone, traced⟩
    · obtain ⟨others, same, merges⟩ := replaces.merges_of_merged merged
      exact carries.merge ((same r).2 member) .refl merges
    · have only := (OrderedSet.mem_iff_of_toList_eq alone).1 member
      have noGroup : plan.groupOf? single = none := by
        rw [← commonGroup?_singleton, ← alone]
        exact common
      refine carries.copy ?_
      rw [only]
      simp only [CopyOf, noGroup]
      exact traced

/-- What is built for the contributors to a kind holds the documents of each of them. -/
theorem Replaces.carry_built {doc : Value} {r : Ref} {type : Ty}
    (found : plan.source.type? r = some type) (noUnion : type.kind ≠ .union)
    (admits : type.Admits (fun d s => plan.Carries conflate target h trace d s) doc)
    {types : List Ref} {kind : Kind} {refs others : OrderedSet Ref}
    (part : plan.source.Part conflate types kind refs) (inside : r ∈ refs) (listed : r ∈ others)
    {raw : Node} {new : Ref} (builds : plan.Builds trace others kind raw.type)
    (node : h.node? new = some (target.normalize raw)) : h.Accepts doc new := by
  obtain ⟨_, own, kindR, subsumed⟩ := part.mem_iff.1 inside
  rw [plan.source.kind?_of_type? found] at kindR
  cases kindR
  refine accepts_of_admits node (builds.admits listed found subsumed noUnion ?_ admits)
  exact fun carries belongs stands => replaces.carry_mergeOf carries belongs stands

/-- A member carries its documents into the replacement of a group of records. -/
theorem Replaces.carry_group (records : plan.OfRecords) {doc : Value} {r : Ref} {type : Ty}
    (found : plan.source.type? r = some type)
    (admits : type.Admits (fun d s => plan.Carries conflate target h trace d s) doc) {index : Nat}
    (own : plan.groupOf? r = some index) {new : Ref} (traced : trace new (.group index)) :
    h.Accepts doc new := by
  obtain ⟨members, listed, member⟩ := groupOf?_eq_some_iff.1 own
  have kinds := records members (List.mem_of_getElem? listed)
  have isRecord : type.kind = .record := by
    have kindR := kinds r member
    rw [plan.source.kind?_of_type? found] at kindR
    exact Option.some.inj kindR
  obtain ⟨refs, single⟩ : ∃ refs,
      plan.source.contributors conflate (OrderedSet.ofList members).toList = [(.record, refs)] :=
    records.contributors_eq listed
  have leaf : r ∈ plan.source.leaves (OrderedSet.ofList members).toList := by
    refine plan.source.mem_leaves_iff.2 ⟨plan.source.lt_of_type? found, ?_, r,
      OrderedSet.mem_ofList.2 member, .refl⟩
    rw [kinds r member]
    intro same
    cases same
  obtain ⟨kind, others, part, inside⟩ := Graph.exists_part conflate leaf
  have here := (plan.source.mem_contributors conflate).2 part
  rw [single, List.mem_singleton] at here
  cases here
  obtain ⟨raw, node, realises⟩ := replaces.merges_of_group listed traced
  have noUnion : type.kind ≠ .union := by
    rw [isRecord]
    decide
  exact replaces.carry_built found noUnion admits part inside inside
    (realises.builds_of_part single) node

/-- A leaf carries its documents into the merge of a set, by way of the part that it is in. -/
theorem Replaces.carry_leaf {doc : Value} {r : Ref} {type : Ty}
    (found : plan.source.type? r = some type) (noUnion : type.kind ≠ .union)
    (admits : type.Admits (fun d s => plan.Carries conflate target h trace d s) doc)
    (copy : ∀ {new}, plan.CopyOf trace r new → h.Accepts doc new) {types : OrderedSet Ref}
    {t new : Ref} (member : t ∈ types) (path : plan.source.Unfolds t r)
    (merges : plan.Merges conflate target h trace types new) : h.Accepts doc new := by
  have leaf : r ∈ plan.source.leaves types.toList := by
    refine plan.source.mem_leaves_iff.2 ⟨plan.source.lt_of_type? found, ?_, t, member, path⟩
    rw [plan.source.kind?_of_type? found]
    exact fun same => noUnion (Option.some.inj same)
  obtain ⟨kind, refs, part, inside⟩ := Graph.exists_part conflate leaf
  have listed := (plan.source.mem_contributors conflate).2 part
  obtain ⟨raw, node, realises⟩ := merges
  cases realises with
  | part single builds =>
    rw [single, List.mem_singleton] at listed
    cases listed
    exact replaces.carry_built found noUnion admits part inside inside builds node
  | union several related =>
    obtain ⟨m, there, stands⟩ := exists_of_mem_left related listed
    refine accepts_of_admits node (.union (OrderedSet.mem_ofList.2 there) ?_)
    rcases stands with ⟨single, alone, copied⟩ | merged
    · have only := (OrderedSet.mem_iff_of_toList_eq alone).1 inside
      exact copy (only ▸ copied)
    · obtain ⟨origin, traced⟩ := merged.exists_origin
      obtain ⟨memberNode, filled⟩ := replaces.exists_node traced
      obtain ⟨others, inner, rfl, same, builds⟩ :=
        builds_of_merged replaces.explains part merged filled
      exact replaces.carry_built found noUnion admits part inside ((same r).2 inside) builds filled

/-- Whatever belongs to a type of the source belongs to every type that stands for it. -/
theorem Replaces.carries (records : plan.OfRecords) {doc : Value} {r : Ref}
    (accepts : plan.source.Accepts doc r) : plan.Carries conflate target h trace doc r := by
  refine accepts.induct ?_
  intro doc r type found layer
  have admits : type.Admits (fun d s => plan.Carries conflate target h trace d s) doc :=
    layer.imp fun both => both.2
  have copy : ∀ {new}, plan.CopyOf trace r new → h.Accepts doc new := by
    intro new stands
    unfold CopyOf at stands
    split at stands
    · rename_i index own
      exact replaces.carry_group records found admits own stands
    · obtain ⟨node, filled⟩ := replaces.exists_node stands
      obtain ⟨raw, realises, rfl⟩ := replaces.explains stands filled
      cases realises with
      | @copy _ source children sourceNode related =>
        have same : source.type = type := by
          rw [Graph.type?, sourceNode] at found
          exact Option.some.inj found
        refine accepts_of_admits filled ?_
        rw [← same] at admits
        exact admits.withChildren related fun carries stands => carries.copy stands
  refine ⟨copy, ?_⟩
  intro types t new member path merges
  by_cases isUnion : type.kind = .union
  · cases admits with
    | union inside carries =>
      have step : _ ∈ plan.source.members r := plan.source.mem_members_iff.2 ⟨_, found, inside⟩
      exact carries.merge member (path.tail step) merges
    | _ => cases isUnion
  · exact replaces.carry_leaf found isUnion admits copy member path merges

end Carries

end Plan

end SchemaGraph
