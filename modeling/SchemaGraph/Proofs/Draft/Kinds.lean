import SchemaGraph.Proofs.Draft.Plan
import SchemaGraph.Proofs.Draft.Trace
/-!
# Proofs.Draft.Kinds -- the kind of a new type, by what it stands for

A copy has the kind of its original, a merge of one part has the kind of the part, and a group of
records becomes a record. So the members of a new union differ in kind because the members of the
old one, or the parts of the merge, do (`Plan.kinds_differ`).

`Plan.Explains` is what the proofs need of the nodes of a new graph, finished or not: each may stand
for what its reference stands for.
-/

namespace SchemaGraph

set_option autoImplicit false

namespace Graph

variable {g : Graph} {conflate : Bool}

/-! ## Sets of types with one part -/

/-- A set of types whose parts are all of one kind has one part. -/
theorem contributors_eq_singleton {types : List Ref} {kind : Kind} {leaf : Ref}
    (some_leaf : leaf ∈ g.leaves types)
    (only : ∀ other refs, g.Part conflate types other refs → other = kind) :
    ∃ refs, g.contributors conflate types = [(kind, refs)] := by
  have all : ∀ entry ∈ g.contributors conflate types, entry.1 = kind := by
    rintro ⟨other, refs⟩ listed
    exact only other refs ((g.mem_contributors conflate).1 listed)
  have distinct := g.nodup_kinds_contributors conflate types
  obtain ⟨own, ownRefs, part, _⟩ := exists_part conflate some_leaf
  have listed := (g.mem_contributors conflate).2 part
  cases parts : g.contributors conflate types with
  | nil =>
    rw [parts] at listed
    cases listed
  | cons first rest =>
    rw [parts] at all distinct
    cases rest with
    | nil =>
      obtain ⟨other, refs⟩ := first
      have same : other = kind := all (other, refs) List.mem_cons_self
      exact ⟨refs, by rw [same]⟩
    | cons second rest =>
      have one := all first List.mem_cons_self
      have two := all second (List.mem_cons_of_mem _ List.mem_cons_self)
      simp [one, two] at distinct

/-- Sets with the same elements have the same leaves. -/
theorem mem_leaves_congr {s t : List Ref} (same : ∀ r, r ∈ s ↔ r ∈ t) {r : Ref} :
    r ∈ g.leaves s ↔ r ∈ g.leaves t := by
  rw [g.mem_leaves_iff, g.mem_leaves_iff]
  simp only [same]

/-- Sets with the same elements have the same parts, up to the order in which they are listed. -/
theorem Part.congr {s t : List Ref} (same : ∀ r, r ∈ s ↔ r ∈ t) {kind : Kind} {refs : OrderedSet Ref}
    (part : g.Part conflate s kind refs) :
    ∃ others, g.Part conflate t kind others ∧ ∀ r, r ∈ others ↔ r ∈ refs := by
  have leaves : ∀ r, r ∈ g.leaves s ↔ r ∈ g.leaves t := fun r => mem_leaves_congr same
  have present : g.hasKind (g.leaves s) = g.hasKind (g.leaves t) := by
    funext other
    rw [Bool.eq_iff_iff, g.hasKind_iff, g.hasKind_iff]
    simp only [leaves]
  have members : ∀ r, r ∈ g.contributorsTo conflate (g.leaves t) kind ↔ r ∈ refs := by
    intro r
    rw [part.mem_iff, g.mem_contributorsTo, present, leaves]
  obtain ⟨r, member⟩ := part.exists_mem
  refine ⟨_, ⟨rfl, ?_⟩, members⟩
  rw [OrderedSet.isEmpty, List.isEmpty_eq_false_iff]
  exact List.ne_nil_of_mem ((members r).2 member)

/-- Sets with the same elements have parts of the same kinds. -/
theorem kinds_contributors_congr {s t : List Ref} (same : ∀ r, r ∈ s ↔ r ∈ t) :
    (g.contributors conflate s).map Prod.fst = (g.contributors conflate t).map Prod.fst := by
  have kinds : ∀ types : List Ref, (g.contributors conflate types).map Prod.fst =
      Kind.all.filter fun kind => !(g.contributorsTo conflate (g.leaves types) kind).isEmpty := by
    intro types
    rw [contributors, List.filter_map, List.map_map]
    exact List.map_id _
  have present : ∀ {s t : List Ref} {kind : Kind}, (∀ r, r ∈ s ↔ r ∈ t) →
      (g.contributorsTo conflate (g.leaves s) kind).isEmpty = false →
      (g.contributorsTo conflate (g.leaves t) kind).isEmpty = false := by
    intro s t kind same nonempty
    have partS : g.Part conflate s kind (g.contributorsTo conflate (g.leaves s) kind) := ⟨rfl, nonempty⟩
    obtain ⟨others, part, _⟩ := partS.congr same
    rw [← part.eq]
    exact part.nonempty
  rw [kinds, kinds]
  refine List.filter_congr fun kind _ => ?_
  rw [Bool.eq_iff_iff, Bool.not_eq_true', Bool.not_eq_true']
  exact ⟨present same, present fun r => (same r).symm⟩

/-- Sets with the same elements have one part of one kind together. -/
theorem contributors_singleton_congr {s t : List Ref} (same : ∀ r, r ∈ s ↔ r ∈ t) {kind : Kind}
    {refs : OrderedSet Ref} (single : g.contributors conflate s = [(kind, refs)]) :
    ∃ others, g.contributors conflate t = [(kind, others)] ∧ ∀ r, r ∈ others ↔ r ∈ refs := by
  obtain ⟨others, partT, members⟩ := (Graph.Part.of_contributors_eq single).congr same
  obtain ⟨r, member⟩ := partT.exists_mem
  have only : ∀ other others, g.Part conflate t other others → other = kind := by
    intro other others partOther
    obtain ⟨back, partS, _⟩ := partOther.congr fun r => (same r).symm
    have listed := (g.mem_contributors conflate).2 partS
    rw [single, List.mem_singleton] at listed
    exact congrArg Prod.fst listed
  obtain ⟨found, eq⟩ := contributors_eq_singleton (partT.leaf member) only
  have listed := (g.mem_contributors conflate).2 partT
  rw [eq, List.mem_singleton] at listed
  have here : others = found := congrArg Prod.snd listed
  exact ⟨found, eq, here ▸ members⟩

/-- Types of one kind, which is not that of unions, have one part. -/
theorem contributors_of_forall_kind {types : List Ref} {kind : Kind} (plain : kind ≠ .union)
    (nonempty : types ≠ []) (all : ∀ r ∈ types, g.kind? r = some kind) :
    ∃ refs, g.contributors conflate types = [(kind, refs)] := by
  obtain ⟨first, member⟩ := List.exists_mem_of_ne_nil types nonempty
  have noUnion : ∀ r ∈ types, g.kind? r ≠ some .union := by
    intro r listed same
    rw [all r listed] at same
    exact plain (Option.some.inj same)
  have leaf : first ∈ g.leaves types := by
    obtain ⟨type, found, _⟩ := g.exists_type?_of_kind? (all first member)
    exact g.mem_leaves_iff.2 ⟨g.lt_of_type? found, noUnion first member, first, member, .refl⟩
  refine contributors_eq_singleton leaf ?_
  intro other refs part
  obtain ⟨r, inside, kindR⟩ := part.exists_kind
  obtain ⟨_, _, t, listed, path⟩ := g.mem_leaves_iff.1 (part.leaf inside)
  have here : r = t := g.eq_of_unfolds (noUnion t listed) path
  have known := all t listed
  rw [← here, kindR] at known
  exact Option.some.inj known

end Graph

namespace Plan

variable (plan : Plan) (conflate : Bool)

/-- Every node may stand for what its reference stands for, as the target wants it. -/
def Explains (target : Target) (trace : Trace) (nodes : Ref → Option Node) : Prop :=
  ∀ {n : Ref} {origin : Origin} {node : Node}, trace n origin → nodes n = some node →
    ∃ raw, plan.Realises conflate trace origin raw ∧ node = target.normalize raw

/-- Every group consists of records. -/
def OfRecords : Prop := ∀ group ∈ plan.groups, ∀ r ∈ group, plan.source.kind? r = some .record

variable {plan conflate} {target : Target} {trace : Trace} {nodes : Ref → Option Node}

/-- The members of a group of records have one part. -/
theorem OfRecords.contributors_eq (records : plan.OfRecords) {index : Nat} {members : List Ref}
    (listed : plan.groups[index]? = some members) : ∃ refs,
      plan.source.contributors conflate (OrderedSet.ofList members).toList = [(.record, refs)] := by
  have group := List.mem_of_getElem? listed
  refine Graph.contributors_of_forall_kind (by decide) ?_ ?_
  · obtain ⟨r, member⟩ := List.exists_mem_of_ne_nil members (plan.nonempty members group)
    exact List.ne_nil_of_mem (OrderedSet.mem_ofList.2 member : r ∈ OrderedSet.ofList members)
  · exact fun r member => records members group r (OrderedSet.mem_ofList.1 member)

/-- Only records have a group. -/
theorem OfRecords.kind_of_groupOf? (records : plan.OfRecords) {r : Ref} {index : Nat}
    (own : plan.groupOf? r = some index) : plan.source.kind? r = some .record := by
  obtain ⟨members, listed, member⟩ := plan.groupOf?_eq_some_iff.1 own
  exact records members (List.mem_of_getElem? listed) r member

/-- What is no record is copied. -/
theorem OfRecords.copy_of_kind (records : plan.OfRecords) {old new : Ref}
    (other : plan.source.kind? old ≠ some .record) (stands : plan.CopyOf trace old new) :
    trace new (.copy old) := by
  unfold CopyOf at stands
  split at stands
  · rename_i index own
    exact absurd (records.kind_of_groupOf? own) other
  · exact stands

theorem Builds.kind_eq {refs : OrderedSet Ref} {kind : Kind} {type : Ty}
    (builds : plan.Builds trace refs kind type) : type.kind = kind := by
  cases builds <;> rfl

/-- A node for a set of types with one part has the kind of the part. -/
theorem Realises.builds_of_part {types : OrderedSet Ref} {node : Node} {kind : Kind}
    {refs : OrderedSet Ref} (realises : plan.Realises conflate trace (.merge types) node)
    (single : plan.source.contributors conflate types.toList = [(kind, refs)]) :
    plan.Builds trace refs kind node.type := by
  cases realises with
  | part same builds =>
    rw [single] at same
    cases same
    exact builds
  | union several _ =>
    rw [single] at several
    exact absurd rfl several

theorem Realises.merge_of_group {index : Nat} {members : List Ref} {node : Node}
    (realises : plan.Realises conflate trace (.group index) node)
    (listed : plan.groups[index]? = some members) :
    plan.Realises conflate trace (.merge (.ofList members)) node := by
  cases realises with
  | group same inner =>
    rw [listed] at same
    cases same
    exact inner

theorem Realises.kind_of_copy {old : Ref} {node : Node}
    (realises : plan.Realises conflate trace (.copy old) node) :
    plan.source.kind? old = some node.kind := by
  cases realises with
  | copy found children =>
    rw [Graph.kind?, found]
    exact congrArg some (Ty.kind_withChildren _ _).symm

/-- The replacement of a group of records is a record. -/
theorem Realises.kind_of_group (records : plan.OfRecords) {index : Nat} {node : Node}
    (realises : plan.Realises conflate trace (.group index) node) : node.kind = .record := by
  cases realises with
  | group listed inner =>
    obtain ⟨refs, single⟩ : ∃ refs,
        plan.source.contributors conflate (OrderedSet.ofList _).toList = [(.record, refs)] :=
      records.contributors_eq listed
    exact (inner.builds_of_part single).kind_eq

section Explained

variable (explains : plan.Explains conflate target trace nodes) (records : plan.OfRecords)

include explains records

theorem kind_of_copyOf {old new : Ref} {node : Node} (stands : plan.CopyOf trace old new)
    (found : nodes new = some node) : plan.source.kind? old = some node.kind := by
  unfold CopyOf at stands
  split at stands
  · rename_i index group
    obtain ⟨raw, realises, rfl⟩ := explains stands found
    rw [Target.kind_normalize, realises.kind_of_group records]
    exact records.kind_of_groupOf? group
  · obtain ⟨raw, realises, rfl⟩ := explains stands found
    rw [Target.kind_normalize]
    exact realises.kind_of_copy

omit records in
/-- The merge of the contributors to one kind has that kind. -/
theorem builds_of_merged {types : List Ref} {kind : Kind} {refs : OrderedSet Ref}
    (part : plan.source.Part conflate types kind refs) {new : Ref} {node : Node}
    (merged : plan.Merged trace refs new) (found : nodes new = some node) :
    ∃ others raw, node = target.normalize raw ∧ (∀ r, r ∈ others ↔ r ∈ refs) ∧
      plan.Builds trace others kind raw.type := by
  rcases merged with ⟨others, key, traced⟩ | ⟨index, members, listed, key, traced⟩
  · obtain ⟨raw, realises, rfl⟩ := explains traced found
    have same : ∀ r, r ∈ refs ↔ r ∈ others := fun r => ((unionKey_eq_iff.1 key) r).symm
    obtain ⟨inner, single, members⟩ :=
      Graph.contributors_singleton_congr same part.contributors_eq
    exact ⟨inner, raw, rfl, members, realises.builds_of_part single⟩
  · obtain ⟨raw, realises, rfl⟩ := explains traced found
    have same : ∀ r, r ∈ refs ↔ r ∈ OrderedSet.ofList members :=
      fun r => ((unionKey_eq_iff.1 key) r).symm
    obtain ⟨inner, single, inside⟩ :=
      Graph.contributors_singleton_congr same part.contributors_eq
    exact ⟨inner, raw, rfl, inside, (realises.merge_of_group listed).builds_of_part single⟩

theorem kind_of_memberOf {types : List Ref} {part : Kind × OrderedSet Ref}
    (listed : part ∈ plan.source.contributors conflate types) {new : Ref} {node : Node}
    (stands : plan.MemberOf trace part new) (found : nodes new = some node) :
    node.kind = part.1 := by
  obtain ⟨kind, refs⟩ := part
  have isPart := (plan.source.mem_contributors conflate).1 listed
  rcases stands with ⟨single, alone, copy⟩ | merged
  · obtain ⟨r, member, kindR⟩ := isPart.exists_kind
    have only := (OrderedSet.mem_iff_of_toList_eq alone).1 member
    have kindNode := kind_of_copyOf explains records copy found
    rw [← only, kindR] at kindNode
    exact (Option.some.inj kindNode).symm
  · obtain ⟨others, raw, rfl, _, builds⟩ := builds_of_merged explains isPart merged found
    rw [Target.kind_normalize]
    exact builds.kind_eq

/-- The members of a new union differ in kind. -/
theorem nodup_kinds_of_union {origin : Origin} {raw : Node} {members : OrderedSet Ref}
    (realises : plan.Realises conflate trace origin raw) (type : raw.type = .union members)
    (all : ∀ r ∈ members, ∃ node, nodes r = some node) :
    ∀ a ∈ members, ∀ b ∈ members, (nodes a).map Node.kind = (nodes b).map Node.kind → a = b := by
  have differ : ∀ {xs : List Ref}, (∀ r, r ∈ members ↔ r ∈ xs) →
      (xs.map fun r => (nodes r).map Node.kind).Nodup → ∀ a ∈ members, ∀ b ∈ members,
      (nodes a).map Node.kind = (nodes b).map Node.kind → a = b := by
    intro xs same distinct a inA b inB kinds
    exact List.inj_on_of_nodup_map distinct ((same a).1 inA) ((same b).1 inB) kinds
  induction realises with
  | copy found children =>
    rename_i old source news
    have isUnion : ∃ olds : OrderedSet Ref, source.type = .union olds := by
      obtain ⟨sourceType, attributes⟩ := source
      cases sourceType with
      | union olds => exact ⟨olds, rfl⟩
      | _ => cases news <;> cases type
    obtain ⟨olds, sourceType⟩ := isUnion
    have oldKinds : (olds.toList.map plan.source.kind?).Nodup := by
      refine List.Nodup.map_on ?_ olds.nodup
      intro a inA b inB kinds
      have node : source ∈ plan.source.nodes := Array.mem_of_getElem? found
      exact plan.source.valid.kinds_differ source node olds sourceType a inA b inB kinds
    simp only [sourceType, Ty.withChildren, Ty.union.injEq] at type
    have listed : source.children = olds.toList := by
      rw [Node.children, sourceType]
      rfl
    rw [listed] at children
    subst type
    refine differ (fun r => OrderedSet.mem_ofList) ?_
    have same : olds.toList.map plan.source.kind? =
        news.map fun r => (nodes r).map Node.kind := by
      refine map_eq_map_of_forall₂ children fun oldMember _ new member stands => ?_
      obtain ⟨node, filled⟩ := all new (OrderedSet.mem_ofList.2 member)
      rw [kind_of_copyOf explains records stands filled, filled]
      rfl
    rw [← same]
    exact oldKinds
  | part single builds => cases builds <;> cases type
  | union several related =>
    rename_i types news attributes
    simp only [Ty.union.injEq] at type
    subst type
    refine differ (fun r => OrderedSet.mem_ofList) ?_
    have same : (plan.source.contributors conflate types.toList).map (fun part => some part.1) =
        news.map fun r => (nodes r).map Node.kind := by
      refine map_eq_map_of_forall₂ related fun part listed new member stands => ?_
      obtain ⟨node, filled⟩ := all new (OrderedSet.mem_ofList.2 member)
      rw [← kind_of_memberOf explains records listed stands filled, filled]
      rfl
    have distinct := plan.source.nodup_kinds_contributors conflate types.toList
    rw [← same]
    have split : (plan.source.contributors conflate types.toList).map (fun part => some part.1) =
        ((plan.source.contributors conflate types.toList).map Prod.fst).map some := by
      rw [List.map_map]
      rfl
    rw [split]
    exact distinct.map (Option.some_injective _)
  | group listed _ ih => exact ih type

end Explained

end Plan

end SchemaGraph
