import Mathlib
import SchemaGraph.Proofs.Documents.Replace
import SchemaGraph.Proofs.Draft.Replacement
import SchemaGraph.Proofs.Merge.Unify
/-!
# Proofs.Merge.Groups -- where the members of a group are referred to

While a group of records is replaced, the types of its members' constituents are unified in turn, and
such a set may come to the very group (`Plan.Calls`). What the set comes to then leads to one record, by
way of unions at most (`Graph.Designates`).

That record is the replacement of the group if all types of the set are members, if the set is a single
type, or if the set becomes a union to whose records one member contributes. It is another record,
merged of the members that the set leads to and of nothing else, if the set has no types but records and
unions of them, or if several members contribute, unless they are remembered as the whole group
(`Plan.Replaces.designates`). So not every reference to a member leads to the group
(`Graph.group_is_missed`).
-/

namespace SchemaGraph

set_option autoImplicit false

open Relation

/-- The record is the only one that the reference leads to, by way of unions at most. -/
structure Graph.Designates (h : Graph) (n m : Ref) : Prop where
  path : h.Unfolds n m
  isRecord : h.kind? m = some .record
  only : ∀ other, h.Unfolds n other → h.kind? other = some .record → other = m

/-- A record designates itself. -/
theorem Graph.designates_of_record {h : Graph} {n : Ref} (isRecord : h.kind? n = some .record) :
    h.Designates n n where
  path := .refl
  isRecord := isRecord
  only other path _ := h.eq_of_unfolds (by simp [isRecord]) path

/-- A union without unions among its members designates the record among them. -/
theorem Graph.designates_of_member {h : Graph} {n m : Ref} {members : OrderedSet Ref}
    (type : h.type? n = some (.union members)) (member : m ∈ members)
    (isRecord : h.kind? m = some .record) (flat : ∀ r ∈ members, h.kind? r ≠ some .union) :
    h.Designates n m where
  path := .single (h.mem_members_iff.2 ⟨members, type, member⟩)
  isRecord := isRecord
  only other path otherRecord := by
    rcases ReflTransGen.cases_head path with same | ⟨next, first, rest⟩
    · subst same
      rw [h.kind?_of_type? type] at otherRecord
      cases otherRecord
    · obtain ⟨again, typeAgain, inside⟩ := h.mem_members_iff.1 first
      rw [type] at typeAgain
      cases typeAgain
      have same := h.eq_of_unfolds (flat next inside) rest
      subst same
      obtain ⟨node, found, isUnion⟩ := Option.map_eq_some_iff.1 type
      have listed : node ∈ h.nodes := Array.mem_of_getElem? found
      exact h.valid.kinds_differ node listed members isUnion _ inside _ member
        (otherRecord.trans isRecord.symm)

namespace Plan

section Statements

variable (plan : Plan) (conflate : Bool)

/-- The type of the new graph was built for the types: for several that were merged, or for a group. -/
def BuiltFor (trace : Trace) (types : OrderedSet Ref) (n : Ref) : Prop :=
  trace n (.merge types) ∨ ∃ index members, plan.groups[index]? = some members ∧
    types = .ofList members ∧ trace n (.group index)

/-- The set of types was unified for a constituent of a type that was built, and this is what it came
to. -/
inductive Calls (h : Graph) (trace : Trace) : OrderedSet Ref → Ref → Prop
  | items {types refs : OrderedSet Ref} {n items : Ref} : plan.BuiltFor trace types n →
      plan.source.contributors conflate types.toList = [(.array, refs)] →
      h.type? n = some (.array items) → Calls h trace (plan.source.itemsOf refs) items
  | values {types refs : OrderedSet Ref} {n values : Ref} : plan.BuiltFor trace types n →
      plan.source.contributors conflate types.toList = [(.map, refs)] →
      h.type? n = some (.map values) → Calls h trace (plan.source.valuesOf refs) values
  | property {types refs : OrderedSet Ref} {n : Ref} {record : Record} {name : String} {p : Property} :
      plan.BuiltFor trace types n →
      plan.source.contributors conflate types.toList = [(.record, refs)] →
      h.type? n = some (.record record) → record.property? name = some p →
      Calls h trace (mergeProperty (plan.source.recordsOf refs) name).types p.type

/-- The records that the types lead to. -/
def recordLeaves (types : OrderedSet Ref) : List Ref :=
  plan.source.ofKind (plan.source.leaves types.toList) .record

/-- The types lead to records, all of one group, and to nothing that subsumes records. -/
structure OfGroup (types : OrderedSet Ref) (index : Nat) : Prop where
  some_record : ∃ r, r ∈ plan.recordLeaves types
  all : ∀ r ∈ plan.recordLeaves types, plan.groupOf? r = some index
  no_map : ∀ r ∈ plan.source.leaves types.toList, plan.source.kind? r ≠ some .map
  no_any : ∀ r ∈ plan.source.leaves types.toList, plan.source.kind? r ≠ some .any

/-- How many kinds the types merge into. -/
def kinds (types : OrderedSet Ref) : Nat :=
  (plan.source.contributors conflate types.toList).length

/-- The record is the replacement of the group. All types are members of it, or there is but one type, or
the set becomes a union to whose records one member contributes or all of them do. -/
structure Reaches (trace : Trace) (types : OrderedSet Ref) (index : Nat) (m : Ref) : Prop where
  traced : trace m (.group index)
  cause : (∀ t ∈ types, plan.groupOf? t = some index) ∨ types.size = 1 ∨
    1 < plan.kinds conflate types ∧ ((plan.recordLeaves types).length = 1 ∨
      ∀ r, r ∈ plan.recordLeaves types ↔ plan.groupOf? r = some index)

/-- The record was merged of the records that the types lead to, apart from the replacement of their
group. Several types lead to records alone, and not all are records, or to several records among
others. -/
structure Misses (trace : Trace) (types : OrderedSet Ref) (index : Nat) (m : Ref) : Prop where
  merged : ∃ set, trace m (.merge set) ∧ ∀ r, r ∈ plan.recordLeaves set ↔ r ∈ plan.recordLeaves types
  outside : ∃ t ∈ types, plan.groupOf? t ≠ some index
  several : 1 < types.size
  cause : plan.kinds conflate types = 1 ∨ 1 < (plan.recordLeaves types).length

end Statements

variable {plan : Plan} {conflate : Bool} {target : Target} {trace : Trace} {h : Graph}

theorem mem_recordLeaves {types : OrderedSet Ref} {r : Ref} : r ∈ plan.recordLeaves types ↔
    r ∈ plan.source.leaves types.toList ∧ plan.source.kind? r = some .record :=
  plan.source.mem_ofKind

/-- Records are their own leaves. -/
theorem mem_recordLeaves_of_mem {types : OrderedSet Ref} {r : Ref} (member : r ∈ types)
    (isRecord : plan.source.kind? r = some .record) : r ∈ plan.recordLeaves types := by
  obtain ⟨type, found, _⟩ := plan.source.exists_type?_of_kind? isRecord
  refine mem_recordLeaves.2 ⟨plan.source.mem_leaves_iff.2 ⟨plan.source.lt_of_type? found, ?_, r,
    member, .refl⟩, isRecord⟩
  simp [isRecord]

/-- The records of the set are one part. -/
theorem OfGroup.exists_part {types : OrderedSet Ref} {index : Nat} (ofGroup : plan.OfGroup types index) :
    ∃ refs, plan.source.Part conflate types.toList .record refs ∧
      ∀ r, r ∈ refs ↔ r ∈ plan.recordLeaves types := by
  have absent : ∀ kind, (∀ r ∈ plan.source.leaves types.toList, plan.source.kind? r ≠ some kind) →
      plan.source.hasKind (plan.source.leaves types.toList) kind = false := by
    intro kind none
    rw [Bool.eq_false_iff, ne_eq, plan.source.hasKind_iff]
    rintro ⟨r, listed, found⟩
    exact none r listed found
  have itself : Kind.record.subsumedBy conflate
      (plan.source.hasKind (plan.source.leaves types.toList)) = .record :=
    Kind.subsumedBy_record (absent _ ofGroup.no_any) (absent _ ofGroup.no_map)
  obtain ⟨r, member⟩ := ofGroup.some_record
  obtain ⟨leaf, isRecord⟩ := mem_recordLeaves.1 member
  obtain ⟨kind, refs, part, inside⟩ := Graph.exists_part conflate leaf
  have same : kind = .record := by
    obtain ⟨_, own, kindOf, subsumed⟩ := part.mem_iff.1 inside
    rw [isRecord] at kindOf
    cases kindOf
    exact subsumed.symm.trans itself
  subst same
  refine ⟨refs, part, fun s => ?_⟩
  constructor
  · exact fun inside => mem_recordLeaves.2 ⟨part.leaf inside, part.kind_of_record inside⟩
  · intro listed
    obtain ⟨leaf, isRecord⟩ := mem_recordLeaves.1 listed
    exact part.mem_iff.2 ⟨leaf, .record, isRecord, itself⟩

/-- What the types lead to does not depend on their order. -/
theorem mem_recordLeaves_congr {types others : OrderedSet Ref} (same : ∀ r, r ∈ others ↔ r ∈ types)
    (r : Ref) : r ∈ plan.recordLeaves others ↔ r ∈ plan.recordLeaves types := by
  rw [mem_recordLeaves, mem_recordLeaves, Graph.mem_leaves_congr same]

theorem OfGroup.congr {types others : OrderedSet Ref} {index : Nat} (ofGroup : plan.OfGroup types index)
    (same : ∀ r, r ∈ others ↔ r ∈ types) : plan.OfGroup others index where
  some_record := ofGroup.some_record.imp fun r => (mem_recordLeaves_congr same r).2
  all r listed := ofGroup.all r ((mem_recordLeaves_congr same r).1 listed)
  no_map r leaf := ofGroup.no_map r ((Graph.mem_leaves_congr same).1 leaf)
  no_any r leaf := ofGroup.no_any r ((Graph.mem_leaves_congr same).1 leaf)

theorem OfGroup.types_ne_nil {types : OrderedSet Ref} {index : Nat}
    (ofGroup : plan.OfGroup types index) : types.toList ≠ [] := by
  obtain ⟨r, listed⟩ := ofGroup.some_record
  obtain ⟨_, _, t, member, _⟩ := plan.source.mem_leaves_iff.1 (mem_recordLeaves.1 listed).1
  exact List.ne_nil_of_mem member

theorem kinds_congr {types others : OrderedSet Ref} (same : ∀ r, r ∈ others ↔ r ∈ types) :
    plan.kinds conflate others = plan.kinds conflate types := by
  have lists : (plan.source.contributors conflate others.toList).map Prod.fst =
      (plan.source.contributors conflate types.toList).map Prod.fst :=
    Graph.kinds_contributors_congr same
  have lengths := congrArg List.length lists
  rwa [List.length_map, List.length_map] at lengths

theorem length_eq_of_mem_iff {xs ys : List Ref} (distinct : xs.Nodup) (distinct' : ys.Nodup)
    (same : ∀ r, r ∈ xs ↔ r ∈ ys) : xs.length = ys.length :=
  ((List.perm_ext_iff_of_nodup distinct distinct').2 same).length_eq

theorem nodup_recordLeaves (types : OrderedSet Ref) : (plan.recordLeaves types).Nodup :=
  (plan.source.nodup_leaves types.toList).filter _

/-- Records lead to themselves. -/
theorem mem_recordLeaves_of_records {set : OrderedSet Ref}
    (isRecord : ∀ r ∈ set, plan.source.kind? r = some .record) (r : Ref) :
    r ∈ plan.recordLeaves set ↔ r ∈ set := by
  constructor
  · intro listed
    obtain ⟨_, _, t, member, path⟩ := plan.source.mem_leaves_iff.1 (mem_recordLeaves.1 listed).1
    have same : r = t := plan.source.eq_of_unfolds (by simp [isRecord t member]) path
    rw [same]
    exact member
  · exact fun member => mem_recordLeaves_of_mem member (isRecord r member)

section Replaced

variable (replaces : plan.Replaces conflate target h trace) (records : plan.OfRecords)

include replaces

/-! ## What a set comes to -/

theorem Replaces.merges_of_builtFor {types : OrderedSet Ref} {n : Ref}
    (built : plan.BuiltFor trace types n) : plan.Merges conflate target h trace types n := by
  rcases built with traced | ⟨index, members, listed, rfl, traced⟩
  · exact replaces.merges traced
  · exact replaces.merges_of_group listed traced

/-- What a set of types comes to stands for the set. -/
theorem Replaces.mergeOf_of_calls {types : OrderedSet Ref} {new : Ref}
    (calls : plan.Calls conflate h trace types new) : plan.MergeOf trace types new := by
  -- the type is the one that was built, unless it is a record, whose properties are sorted
  have opened : ∀ {types refs : OrderedSet Ref} {n : Ref} {kind : Kind} {type : Ty},
      plan.BuiltFor trace types n → plan.source.contributors conflate types.toList = [(kind, refs)] →
      h.type? n = some type → ∃ raw : Node, plan.Builds trace refs kind raw.type ∧
        (target.normalize raw).type = type ∧ (kind ≠ .record → raw.type = type) := by
    intro types refs n kind type built single found
    obtain ⟨raw, node, realises⟩ := replaces.merges_of_builtFor built
    rw [Graph.type?, node] at found
    have builds := realises.builds_of_part single
    refine ⟨raw, builds, Option.some.inj found, fun other => ?_⟩
    rw [← builds.kind_eq] at other
    rw [← target.type_normalize_of_kind raw other]
    exact Option.some.inj found
  cases calls with
  | items built single found =>
    obtain ⟨raw, builds, _, type⟩ := opened built single found
    obtain ⟨items, array, stands⟩ := builds.inv
    cases array.symm.trans (type (by simp))
    exact stands
  | values built single found =>
    obtain ⟨raw, builds, _, type⟩ := opened built single found
    obtain ⟨values, map, stands⟩ := builds.inv
    cases map.symm.trans (type (by simp))
    exact stands
  | property built single found named =>
    obtain ⟨raw, builds, type, _⟩ := opened built single found
    obtain ⟨merged, record, related⟩ := builds.inv
    obtain ⟨final, again, _, perm⟩ := target.record_normalize raw record
    rw [again] at type
    cases type
    have same := OrderedMap.get?_eq_of_perm perm
    exact (exists_mergeProperty related ((same _).symm.trans named)).2

include records

/-! ## Copies of unions -/

/-- What a type unfolds to, its copy unfolds to a copy of. -/
theorem Replaces.exists_unfolds {old r : Ref} (path : plan.source.Unfolds old r) {n : Ref}
    (stands : plan.CopyOf trace old n) : ∃ m, h.Unfolds n m ∧ plan.CopyOf trace r m := by
  induction path using ReflTransGen.head_induction_on generalizing n with
  | refl => exact ⟨n, .refl, stands⟩
  | @head a b first _ ih =>
    obtain ⟨olds, type, member⟩ := plan.source.mem_members_iff.1 first
    have notRecord : plan.source.kind? a ≠ some .record := by
      simp [plan.source.kind?_eq_union first]
    have traced := records.copy_of_kind notRecord stands
    obtain ⟨news, newType, related⟩ := replaces.union_of_copy traced type
    obtain ⟨new, listed, here⟩ := exists_of_mem_left related member
    obtain ⟨m, rest, copied⟩ := ih here
    exact ⟨m, .head (h.mem_members_iff.2 ⟨_, newType, OrderedSet.mem_ofList.2 listed⟩) rest, copied⟩

/-- What the copy of a type unfolds to is the copy of what the type unfolds to. -/
theorem Replaces.copy_of_unfolds {n m : Ref} (path : h.Unfolds n m) {old : Ref}
    (stands : plan.CopyOf trace old n) :
    ∃ r, plan.source.Unfolds old r ∧ plan.CopyOf trace r m := by
  induction path using ReflTransGen.head_induction_on generalizing old with
  | refl => exact ⟨old, .refl, stands⟩
  | @head a b first _ ih =>
    obtain ⟨members, newType, listed⟩ := h.mem_members_iff.1 first
    obtain ⟨node, found, typeEq⟩ := Option.map_eq_some_iff.1 newType
    have kind := kind_of_copyOf replaces.explains records stands found
    rw [Node.kind, typeEq] at kind
    obtain ⟨type, oldType, isUnion⟩ := plan.source.exists_type?_of_kind? kind
    cases type with
    | union olds =>
      have notRecord : plan.source.kind? old ≠ some .record := by
        simp [kind, Ty.kind]
      have traced := records.copy_of_kind notRecord stands
      obtain ⟨news, again, related⟩ := replaces.union_of_copy traced oldType
      rw [newType] at again
      cases again
      obtain ⟨next, inside, here⟩ := exists_of_mem_right related (OrderedSet.mem_ofList.1 listed)
      obtain ⟨r, rest, copied⟩ := ih here
      exact ⟨r, .head (plan.source.mem_members_iff.2 ⟨olds, oldType, inside⟩) rest, copied⟩
    | primitive p => cases p <;> cases isUnion
    | _ => cases isUnion

/-! ## The record of a set -/

/-- The replacement of a group is a record. -/
theorem Replaces.kind_of_group {n : Ref} {index : Nat} (traced : trace n (.group index)) :
    h.kind? n = some .record := by
  obtain ⟨node, found⟩ := replaces.exists_node traced
  obtain ⟨raw, realises, rfl⟩ := replaces.explains traced found
  rw [Graph.kind?, found, Option.map_some, target.kind_normalize, realises.kind_of_group records]

/-- The copy of a type leads to the group that all records belong to which the type leads to. -/
theorem Replaces.designates_of_copy {types : OrderedSet Ref} {single new : Ref} {index : Nat}
    (alone : types.toList = [single]) (stands : plan.CopyOf trace single new)
    (ofGroup : plan.OfGroup types index) :
    ∃ m, h.Designates new m ∧ trace m (.group index) := by
  have own : ∀ {r}, plan.source.kind? r = some .record → plan.source.Unfolds single r →
      plan.groupOf? r = some index := by
    intro r isRecord path
    obtain ⟨type, found, _⟩ := plan.source.exists_type?_of_kind? isRecord
    refine ofGroup.all r (mem_recordLeaves.2 ⟨plan.source.mem_leaves_iff.2
      ⟨plan.source.lt_of_type? found, by simp [isRecord], single, ?_, path⟩, isRecord⟩)
    rw [alone]
    exact List.mem_cons_self
  obtain ⟨r, listed⟩ := ofGroup.some_record
  obtain ⟨leaf, isRecord⟩ := mem_recordLeaves.1 listed
  obtain ⟨_, _, t, member, path⟩ := plan.source.mem_leaves_iff.1 leaf
  rw [alone, List.mem_singleton] at member
  subst member
  have group : ∀ {r m}, plan.groupOf? r = some index → plan.CopyOf trace r m →
      trace m (.group index) := by
    intro r m found copied
    simp only [CopyOf, found] at copied
    exact copied
  obtain ⟨m, newPath, copied⟩ := replaces.exists_unfolds records path stands
  have traced := group (own isRecord path) copied
  refine ⟨m, ⟨newPath, replaces.kind_of_group records traced, ?_⟩, traced⟩
  intro other otherPath otherRecord
  obtain ⟨s, oldPath, copiedOther⟩ := replaces.copy_of_unfolds records otherPath stands
  obtain ⟨node, found, kind⟩ := Option.map_eq_some_iff.1 otherRecord
  have kindS := kind_of_copyOf replaces.explains records copiedOther found
  rw [kind] at kindS
  exact replaces.unique (group (own kindS oldPath) copiedOther) traced

/-- What stands for the contributors to a kind is of that kind. -/
theorem Replaces.kind_of_member {types : List Ref} {part : Kind × OrderedSet Ref} {n : Ref}
    (listed : part ∈ plan.source.contributors conflate types) (stands : plan.MemberOf trace part n) :
    h.kind? n = some part.1 := by
  obtain ⟨origin, known⟩ := stands.exists_origin
  obtain ⟨node, here⟩ := replaces.exists_node known
  rw [Graph.kind?, here, Option.map_some,
    kind_of_memberOf replaces.explains records listed stands here]

/-- A union of what stands for each kind designates what stands for the records. -/
theorem Replaces.designates_of_union {types : List Ref} {members : List Ref} {refs : OrderedSet Ref}
    {new : Ref} (type : h.type? new = some (.union (.ofList members)))
    (related : List.Forall₂ (plan.MemberOf trace) (plan.source.contributors conflate types) members)
    (listed : (.record, refs) ∈ plan.source.contributors conflate types) :
    ∃ m, h.Designates new m ∧ plan.MemberOf trace (.record, refs) m := by
  obtain ⟨m, inside, stands⟩ := exists_of_mem_left related listed
  refine ⟨m, Graph.designates_of_member type (OrderedSet.mem_ofList.2 inside)
    (replaces.kind_of_member records listed stands) ?_, stands⟩
  intro n member
  obtain ⟨other, among, standsN⟩ := exists_of_mem_right related (OrderedSet.mem_ofList.1 member)
  rw [replaces.kind_of_member records among standsN]
  exact fun same => ((plan.source.mem_contributors conflate).1 among).kind_ne_union
    (Option.some.inj same)

omit replaces records in
/-- What stands for the records that the types lead to is the group if there is one record, or if they
are the whole group, and else it is merged of them. -/
theorem OfGroup.trace_of_member {types refs : OrderedSet Ref} {index : Nat} {m : Ref}
    (ofGroup : plan.OfGroup types index)
    (plural : ∀ n types, trace n (.merge types) → 1 < types.size)
    (part : plan.source.Part conflate types.toList .record refs)
    (leaves : ∀ r, r ∈ refs ↔ r ∈ plan.recordLeaves types)
    (stands : plan.MemberOf trace (.record, refs) m) :
    trace m (.group index) ∧ ((plan.recordLeaves types).length = 1 ∨
        ∀ r, r ∈ plan.recordLeaves types ↔ plan.groupOf? r = some index) ∨
      (∃ set, trace m (.merge set) ∧ ∀ r, r ∈ plan.recordLeaves set ↔ r ∈ plan.recordLeaves types) ∧
        1 < (plan.recordLeaves types).length := by
  have length : (plan.recordLeaves types).length = refs.size :=
    length_eq_of_mem_iff (nodup_recordLeaves types) refs.nodup fun r => (leaves r).symm
  rcases stands with ⟨single, alone, copied⟩ | ⟨others, key, traced⟩ | ⟨g, group, among, key, traced⟩
  · -- one record is not merged: what stands for it is its copy, and that is its group
    have member := (OrderedSet.mem_iff_of_toList_eq alone).2 rfl
    have own := ofGroup.all single ((leaves single).1 member)
    simp only [CopyOf, own] at copied
    refine .inl ⟨copied, .inl ?_⟩
    rw [length, OrderedSet.size, alone]
    rfl
  · have same := unionKey_eq_iff.1 key
    have isRecord : ∀ r ∈ others, plan.source.kind? r = some .record := fun r member =>
      part.kind_of_record ((same r).1 member)
    refine .inr ⟨⟨others, traced, fun r => ?_⟩, ?_⟩
    · rw [mem_recordLeaves_of_records isRecord, same, leaves]
    · have size : others.size = refs.size := length_eq_of_mem_iff others.nodup refs.nodup same
      rw [length, ← size]
      exact plural m others traced
  · -- the set is remembered as the members of a group, which can only be their own
    have same : ∀ r, r ∈ group ↔ r ∈ refs := fun r =>
      OrderedSet.mem_ofList.symm.trans (unionKey_eq_iff.1 key r)
    have own : ∀ r, plan.groupOf? r = some g ↔ r ∈ refs := by
      intro r
      rw [← same, groupOf?_eq_some_iff, among]
      simp
    obtain ⟨r, member⟩ := part.exists_mem
    have all := ofGroup.all r ((leaves r).1 member)
    have here : some g = some index := ((own r).2 member).symm.trans all
    cases here
    exact .inl ⟨traced, .inr fun s => (leaves s).symm.trans (own s).symm⟩

/-- The record of several types that were merged: the merge itself, or what stands for the records among
the members of a union. -/
theorem Replaces.designates_of_merge (plural : ∀ n types, trace n (.merge types) → 1 < types.size)
    {types : OrderedSet Ref} {new : Ref} {index : Nat} (traced : trace new (.merge types))
    (ofGroup : plan.OfGroup types index) : ∃ m, h.Designates new m ∧
      (trace m (.group index) ∧ 1 < plan.kinds conflate types ∧
          ((plan.recordLeaves types).length = 1 ∨
            ∀ r, r ∈ plan.recordLeaves types ↔ plan.groupOf? r = some index) ∨
        (∃ set, trace m (.merge set) ∧ ∀ r, r ∈ plan.recordLeaves set ↔ r ∈ plan.recordLeaves types) ∧
          (plan.kinds conflate types = 1 ∨ 1 < (plan.recordLeaves types).length)) := by
  obtain ⟨refs, part, leaves⟩ : ∃ refs, plan.source.Part conflate types.toList .record refs ∧
      ∀ r, r ∈ refs ↔ r ∈ plan.recordLeaves types := ofGroup.exists_part
  have listed := (plan.source.mem_contributors conflate).2 part
  obtain ⟨raw, found, realises⟩ := replaces.merges traced
  cases realises with
  | part single builds =>
    have one : plan.kinds conflate types = 1 := by
      rw [kinds, single]
      rfl
    rw [single, List.mem_singleton] at listed
    cases listed
    have isRecord : h.kind? new = some .record := by
      rw [Graph.kind?, found, Option.map_some, target.kind_normalize, Node.kind, builds.kind_eq]
    refine ⟨new, Graph.designates_of_record isRecord, .inr ⟨?_, .inl one⟩⟩
    exact ⟨types, traced, fun _ => Iff.rfl⟩
  | @union _ members attributes count related =>
    have severalKinds : 1 < plan.kinds conflate types := by
      have positive := List.length_pos_of_mem listed
      rw [kinds]
      omega
    have type : h.type? new = some (.union (.ofList members)) := by
      have notRecord : (⟨.union (.ofList members), attributes⟩ : Node).kind ≠ .record := by
        simp [Node.kind, Ty.kind]
      rw [Graph.type?, found, Option.map_some, target.type_normalize_of_kind _ notRecord]
    obtain ⟨m, designates, stands⟩ := replaces.designates_of_union records type related listed
    refine ⟨m, designates, (ofGroup.trace_of_member plural part leaves stands).imp ?_ ?_⟩
    · rintro ⟨group, cause⟩
      exact ⟨group, severalKinds, cause⟩
    · rintro ⟨merged, several⟩
      exact ⟨merged, .inr several⟩

/-- What a set comes to leads to one record: the replacement of the group that the records of the set
belong to, or another one that was merged of them. -/
theorem Replaces.designates (plural : ∀ n types, trace n (.merge types) → 1 < types.size)
    {types : OrderedSet Ref} {new : Ref} {index : Nat} (stands : plan.MergeOf trace types new)
    (ofGroup : plan.OfGroup types index) : ∃ m, h.Designates new m ∧
      (plan.Reaches conflate trace types index m ∨ plan.Misses conflate trace types index m) := by
  have some_type := ofGroup.types_ne_nil
  unfold MergeOf at stands
  split at stands
  · -- all types are members of one group
    rename_i g common
    obtain ⟨_, own⟩ := commonGroup?_eq_some_iff.1 common
    obtain ⟨t, member⟩ := List.exists_mem_of_ne_nil _ some_type
    have isRecord := records.kind_of_groupOf? (own t member)
    have here := (own t member).symm.trans (ofGroup.all t (mem_recordLeaves_of_mem member isRecord))
    cases here
    have isRecord := replaces.kind_of_group records stands
    exact ⟨new, Graph.designates_of_record isRecord, .inl ⟨stands, .inl own⟩⟩
  · rename_i common
    have outside : ∃ t ∈ types, plan.groupOf? t ≠ some index := by
      by_contra inside
      simp only [not_exists, not_and, ne_eq, not_not] at inside
      rw [commonGroup?_eq_some_iff.2 ⟨some_type, inside⟩] at common
      cases common
    rcases stands with (⟨others, key, traced⟩ | ⟨g, members, listed, key, _⟩) | ⟨single, alone, traced⟩
    · have same := unionKey_eq_iff.1 key
      obtain ⟨m, designates, outcome⟩ :=
        replaces.designates_of_merge records plural traced (ofGroup.congr same)
      have leaves : ∀ r, r ∈ plan.recordLeaves others ↔ r ∈ plan.recordLeaves types :=
        mem_recordLeaves_congr same
      have length := length_eq_of_mem_iff (nodup_recordLeaves others) (nodup_recordLeaves types) leaves
      simp only [kinds_congr same, length, leaves] at outcome
      refine ⟨m, designates, outcome.imp ?_ ?_⟩
      · rintro ⟨group, cause⟩
        exact ⟨group, .inr (.inr cause)⟩
      · rintro ⟨merged, cause⟩
        have size : others.size = types.size := length_eq_of_mem_iff others.nodup types.nodup same
        exact ⟨merged, outside, size ▸ plural new others traced, cause⟩
    · -- a set of all members of a group has that group in common
      have own : ∀ t ∈ types, plan.groupOf? t = some g := fun t member =>
        groupOf?_eq_some_iff.2 ⟨members, listed,
          OrderedSet.mem_ofList.1 ((unionKey_eq_iff.1 key t).2 member)⟩
      rw [commonGroup?_eq_some_iff.2 ⟨some_type, own⟩] at common
      cases common
    · have noGroup : plan.groupOf? single = none := by
        rw [← commonGroup?_singleton, ← alone]
        exact common
      have copied : plan.CopyOf trace single new := by
        simp only [CopyOf, noGroup]
        exact traced
      obtain ⟨m, designates, group⟩ := replaces.designates_of_copy records alone copied ofGroup
      have one : types.size = 1 := by
        rw [OrderedSet.size, alone]
        rfl
      exact ⟨m, designates, .inl ⟨group, .inr (.inl one)⟩⟩

end Replaced

end Plan

namespace Graph

/-! ## Replacing groups by unification -/

/-- Replacing groups of records by the unification of their members succeeds. Wherever a set of types is
unified for a constituent, and the records that it leads to belong to one group, what it comes to leads
to one record: the replacement of that group, or another one that was merged of them. -/
theorem unified_constituents_designate (source : Graph) (label : String) (target : Target)
    (unifier : Unifier) {groups : List (List Ref)} {plan : Plan}
    (planned : Plan.ofGroups? source groups = .ok plan) (records : plan.OfRecords) :
    ∃ h trace, (source.replaceGroups label target groups unifier.replacement).result = .ok h ∧
      plan.Replaces unifier.conflate target h trace ∧
      (∀ n types, trace n (.merge types) → 1 < types.size) ∧
      ∀ types new index, plan.Calls unifier.conflate h trace types new → plan.OfGroup types index →
        ∃ m, h.Designates new m ∧ (plan.Reaches unifier.conflate trace types index m ∨
          plan.Misses unifier.conflate trace types index m) := by
  obtain ⟨rfl, rfl⟩ := Plan.eq_of_ofGroups? planned
  have fills : unifier.replacement.Fills unifier.conflate := fun sound listed awaits =>
    unifier.advances_replacement sound listed awaits
  obtain ⟨h, trace, result, replaces, plural⟩ :=
    Graph.replaceGroups_succeeds label fills planned records
  refine ⟨h, trace, result, replaces, plural, ?_⟩
  intro types new index calls ofGroup
  exact replaces.designates records plural (replaces.mergeOf_of_calls calls) ofGroup

/-- Three records in a chain: what comes next is null or a record, the first one for two of them and the
third one for itself. -/
def chained : Graph :=
  ⟨#[⟨.primitive .null, .empty⟩, .required [("next", 4)] false, .required [("next", 4)] false,
      .required [("next", 5)] false, ⟨.union (.ofList [0, 1]), .empty⟩, ⟨.union (.ofList [0, 3]), .empty⟩],
    .ofList [("A", 1), ("B", 2), ("C", 3)], firstFault?_eq_none_iff.1 (by decide +kernel)⟩

/-- The three records as one group. -/
def chainedPlan : Plan := ⟨chained, [[1, 2, 3]], by decide, by decide, by decide⟩

/-- The types of what comes next. -/
def nexts : OrderedSet Ref := ⟨[4, 5], by decide⟩

theorem planned_chained : Plan.ofGroups? chained [[1, 2, 3]] = .ok chainedPlan :=
  Plan.ofGroups?_eq_ok chainedPlan.nonempty chainedPlan.members_lt chainedPlan.disjoint

theorem records_chained : chainedPlan.OfRecords := by
  intro group listed r member
  cases List.mem_singleton.1 listed
  simp only [List.mem_cons, List.not_mem_nil, or_false] at member
  rcases member with rfl | rfl | rfl <;> rfl

theorem recordLeaves_nexts : chainedPlan.recordLeaves nexts = [1, 3] := by cbv

theorem ofGroup_nexts : chainedPlan.OfGroup nexts 0 := by
  have leaves : chained.leaves nexts.toList = [0, 1, 3] := by cbv
  refine ⟨⟨1, by rw [recordLeaves_nexts]; decide⟩, ?_, ?_, ?_⟩
  · rw [recordLeaves_nexts]
    decide
  · show ∀ r ∈ chained.leaves nexts.toList, _
    rw [leaves]
    decide
  · show ∀ r ∈ chained.leaves nexts.toList, _
    rw [leaves]
    decide

/-- The types of what comes next are unified for the replacement of the group. -/
theorem calls_nexts {h : Graph} {trace : Trace}
    (replaces : chainedPlan.Replaces true .standard h trace) :
    ∃ new, chainedPlan.Calls true h trace nexts new := by
  have traced : ∃ n, trace n (.group 0) := by
    have tops := replaces.tops
    obtain ⟨entry, _, _, stands⟩ := exists_of_mem_left tops (List.mem_cons_self : ("A", 1) ∈ _)
    exact ⟨entry.2, stands⟩
  obtain ⟨n, traced⟩ := traced
  have built : chainedPlan.BuiltFor trace (.ofList [1, 2, 3]) n :=
    .inr ⟨0, [1, 2, 3], rfl, rfl, traced⟩
  have single : chained.contributors true (OrderedSet.ofList [1, 2, 3]).toList =
      [(.record, ⟨[1, 2, 3], by decide⟩)] := by cbv
  obtain ⟨raw, found, realises⟩ := replaces.merges_of_builtFor built
  obtain ⟨merged, type, related⟩ := (realises.builds_of_part single).inv
  have only : mergeProperties (chained.recordsOf ⟨[1, 2, 3], by decide⟩) =
      [⟨"next", nexts, false⟩] := by cbv
  have types : (mergeProperty (chained.recordsOf ⟨[1, 2, 3], by decide⟩) "next").types = nexts := by cbv
  obtain ⟨entry, listed, same⟩ := exists_of_mem_left related (only ▸ List.mem_cons_self)
  have named : merged.property? "next" = some entry.2 := by
    have pair : ("next", entry.2) = entry := Prod.ext same.name.symm rfl
    refine OrderedMap.get?_eq_some_iff.2 ?_
    rw [pair]
    exact listed
  have record : h.type? n = some (.record merged) := by
    rw [Graph.type?, found, ← type]
    rfl
  have calls := Plan.Calls.property built single record named
  exact ⟨entry.2.type, types ▸ calls⟩

/-- No record that they lead to is the replacement of the group. -/
theorem not_reaches_nexts {trace : Trace} {m : Ref} :
    ¬ chainedPlan.Reaches true trace nexts 0 m := by
  rintro ⟨_, all | one | ⟨_, one | members⟩⟩
  · exact absurd (all 4 (by decide)) (by decide)
  · cases one
  · rw [recordLeaves_nexts] at one
    cases one
  · have second := (members 2).2 (by decide)
    rw [recordLeaves_nexts] at second
    exact absurd second (by decide)

/-- In the graph above they lead to another record than the replacement of the group. -/
theorem chained_misses_group :
    (Plan.ofGroups? chained [[1, 2, 3]] = .ok chainedPlan ∧ chainedPlan.OfRecords) ∧
      ∃ h trace new m, (chained.replaceGroups "rewrite" .standard [[1, 2, 3]]
          (Unifier.replacement ⟨.standard, true⟩)).result = .ok h ∧
        chainedPlan.Calls true h trace nexts new ∧ chainedPlan.OfGroup nexts 0 ∧
        h.Designates new m ∧ chainedPlan.Misses true trace nexts 0 m := by
  refine ⟨⟨planned_chained, records_chained⟩, ?_⟩
  obtain ⟨h, trace, result, replaces, _, designate⟩ := unified_constituents_designate chained "rewrite"
    .standard ⟨.standard, true⟩ planned_chained records_chained
  obtain ⟨new, calls⟩ := calls_nexts replaces
  obtain ⟨m, designates, outcome⟩ := designate nexts new 0 calls ofGroup_nexts
  exact ⟨h, trace, new, m, result, calls, ofGroup_nexts, designates,
    outcome.resolve_left not_reaches_nexts⟩

/-- What a set of members of one group comes to need not lead to the replacement of the group. -/
theorem group_is_missed :
    ¬ ∀ (source : Graph) (label : String) (target : Target) (unifier : Unifier)
        (groups : List (List Ref)) (plan : Plan), Plan.ofGroups? source groups = .ok plan →
      plan.OfRecords →
      ∃ h trace, (source.replaceGroups label target groups unifier.replacement).result = .ok h ∧
        plan.Replaces unifier.conflate target h trace ∧
        (∀ n types, trace n (.merge types) → 1 < types.size) ∧
        ∀ types new index, plan.Calls unifier.conflate h trace types new → plan.OfGroup types index →
          ∃ m, h.Designates new m ∧ trace m (.group index) := by
  intro always
  obtain ⟨h, trace, _, replaces, plural, reaches⟩ := always chained "rewrite" .standard
    ⟨.standard, true⟩ [[1, 2, 3]] chainedPlan planned_chained records_chained
  obtain ⟨new, calls⟩ := calls_nexts replaces
  obtain ⟨m, designates, traced⟩ := reaches nexts new 0 calls ofGroup_nexts
  obtain ⟨other, otherDesignates, outcome⟩ := replaces.designates records_chained plural
    (replaces.mergeOf_of_calls calls) ofGroup_nexts
  have same := designates.only other otherDesignates.path otherDesignates.isRecord
  subst same
  -- the record would stand for the group and for a merge
  obtain ⟨set, merged, _⟩ := (outcome.resolve_left not_reaches_nexts).merged
  rcases replaces.shared traced merged with equal | ⟨copied, _⟩
  · cases equal
  · exact Origin.not_isCopy_group 0 copied

end Graph

end SchemaGraph
