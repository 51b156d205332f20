import SchemaGraph.Merge.Unify
import SchemaGraph.Proofs.Merge.Contributors
import SchemaGraph.Proofs.Node
/-!
# Proofs.Draft.Trace -- what the types of a new graph stand for

While groups are replaced, every reference of the new graph is reserved for something: a group,
the copy of a type, or the merge of a set of types. A `Trace` says which references stand for what.
It is not part of the draft, whose memory forgets the set that a group's own unification
overwrites. `Plan.Realises` says which node may stand for an origin when the references it holds
stand for what they have to; it only ever asks that the trace says something, so it survives as the
trace grows (`Plan.Realises.mono`).

* `Plan.CopyOf`, `Plan.MergeOf`, `Plan.MemberOf`: what a reference has to stand for where the source
  has a type, a set of types to unify, a part of a union.
* `Plan.Builds`: the type of one kind over such references.
* `Plan.MemberFor`, `Plan.Unites`: how the members of a union were made, which says more than what they
  stand for.
-/

namespace SchemaGraph

set_option autoImplicit false

/-- What a type of the new graph stands for. -/
inductive Origin where
  /-- The replacement of the group with this index. -/
  | group (index : Nat)
  /-- The copy of a type of the source. -/
  | copy (old : Ref)
  /-- The merge of a set of types of the source. -/
  | merge (types : OrderedSet Ref)
deriving DecidableEq

/-- The origin of a copy, which a reference may share with other copies. -/
def Origin.IsCopy (origin : Origin) : Prop := ∃ old, origin = .copy old

theorem Origin.not_isCopy_group (index : Nat) : ¬ (Origin.group index).IsCopy := by
  rintro ⟨_, same⟩
  cases same

/-- Which types of the new graph stand for what. -/
abbrev Trace := Ref → Origin → Prop

namespace Plan

variable (plan : Plan) (conflate : Bool)

/-! ## Where references have to lead -/

/-- The new type stands for a type of the source: for its group, if it has one. -/
def CopyOf (trace : Trace) (old new : Ref) : Prop :=
  match plan.groupOf? old with
  | some group => trace new (.group group)
  | none => trace new (.copy old)

/-- The new type is remembered as the merge of the types. -/
def Merged (trace : Trace) (types : OrderedSet Ref) (new : Ref) : Prop :=
  (∃ others, unionKey others = unionKey types ∧ trace new (.merge others)) ∨
    ∃ group members, plan.groups[group]? = some members ∧
      unionKey (.ofList members) = unionKey types ∧ trace new (.group group)

/-- The new type stands for a set of types: for their group if they have one in common, else for
their merge, or for the copy of the only one. -/
def MergeOf (trace : Trace) (types : OrderedSet Ref) (new : Ref) : Prop :=
  match plan.commonGroup? types.toList with
  | some group => trace new (.group group)
  | none => plan.Merged trace types new ∨ ∃ single, types.toList = [single] ∧ trace new (.copy single)

/-- The new type stands for a part of a union: for the copy of a single contributor, or for the
merge of the contributors. -/
def MemberOf (trace : Trace) (part : Kind × OrderedSet Ref) (new : Ref) : Prop :=
  (∃ single, part.2.toList = [single] ∧ plan.CopyOf trace single new) ∨
    plan.Merged trace part.2 new

/-- The type is a member of the group that the origin is. -/
def Belongs (r : Ref) (origin : Origin) : Prop :=
  ∃ index, plan.groupOf? r = some index ∧ origin = .group index

/-- The new type was made for a part of a union of the given origin: as the copy of a single contributor,
unless that is replaced by this very union, and else as the merge of the contributors. -/
def MemberFor (origin : Origin) (trace : Trace) (part : Kind × OrderedSet Ref) (new : Ref) : Prop :=
  (∃ single, part.2.toList = [single] ∧ ¬ plan.Belongs single origin ∧ plan.CopyOf trace single new) ∨
    ((∀ single, part.2.toList = [single] → plan.Belongs single origin) ∧ plan.Merged trace part.2 new)

/-- The types become a union over what was made for their parts, if they have several. -/
def Unites (origin : Origin) (trace : Trace) (types : OrderedSet Ref) (type : Ty) : Prop :=
  (plan.source.contributors conflate types.toList).length ≠ 1 →
    ∃ members, type = .union (.ofList members) ∧
      List.Forall₂ (plan.MemberFor origin trace) (plan.source.contributors conflate types.toList) members

/-- The property of the new record stands for the properties that were merged. -/
structure PropertyOf (trace : Trace) (merged : MergedProperty) (entry : String × Property) :
    Prop where
  name : entry.1 = merged.name
  optional : entry.2.optional = merged.optional
  type : plan.MergeOf trace merged.types entry.2.type

/-! ## What may stand for an origin -/

/-- The type of one kind may stand for its contributors. -/
inductive Builds (trace : Trace) (refs : OrderedSet Ref) : Kind → Ty → Prop
  | primitive (p : Primitive) : Builds trace refs p.kind (.primitive p)
  | enum : Builds trace refs .enum (.enum (plan.source.casesOf refs))
  | array {items : Ref} : plan.MergeOf trace (plan.source.itemsOf refs) items →
      Builds trace refs .array (.array items)
  | map {values : Ref} : plan.MergeOf trace (plan.source.valuesOf refs) values →
      Builds trace refs .map (.map values)
  | record {properties : OrderedMap String Property} :
      List.Forall₂ (plan.PropertyOf trace) (mergeProperties (plan.source.recordsOf refs))
        properties.entries →
      Builds trace refs .record
        (.record ⟨properties, (plan.source.recordsOf refs).any Record.fixed⟩)

/-- The node, as it was before the target had its say, may stand for the origin. -/
inductive Realises (trace : Trace) : Origin → Node → Prop
  | copy {old : Ref} {source : Node} {children : List Ref} :
      plan.source.node? old = some source →
      List.Forall₂ (plan.CopyOf trace) source.children children →
      Realises trace (.copy old) ⟨source.type.withChildren children, source.attributes⟩
  | part {types refs : OrderedSet Ref} {kind : Kind} {type : Ty} {attributes : Bag} :
      plan.source.contributors conflate types.toList = [(kind, refs)] →
      plan.Builds trace refs kind type →
      Realises trace (.merge types) ⟨type, attributes⟩
  | union {types : OrderedSet Ref} {members : List Ref} {attributes : Bag} :
      (plan.source.contributors conflate types.toList).length ≠ 1 →
      List.Forall₂ (plan.MemberOf trace) (plan.source.contributors conflate types.toList) members →
      Realises trace (.merge types) ⟨.union (.ofList members), attributes⟩
  | group {index : Nat} {members : List Ref} {node : Node} :
      plan.groups[index]? = some members →
      Realises trace (.merge (.ofList members)) node →
      Realises trace (.group index) node

section Mono

variable {plan conflate} {trace wider : Trace}

theorem CopyOf.mono (grows : ∀ n origin, trace n origin → wider n origin) {old new : Ref}
    (stands : plan.CopyOf trace old new) : plan.CopyOf wider old new := by
  unfold CopyOf at stands ⊢
  split at stands
  · exact grows _ _ stands
  · exact grows _ _ stands

theorem Merged.mono (grows : ∀ n origin, trace n origin → wider n origin)
    {types : OrderedSet Ref} {new : Ref} (stands : plan.Merged trace types new) :
    plan.Merged wider types new := by
  rcases stands with ⟨others, same, found⟩ | ⟨group, members, listed, same, found⟩
  · exact .inl ⟨others, same, grows _ _ found⟩
  · exact .inr ⟨group, members, listed, same, grows _ _ found⟩

/-- The order of the types does not matter. -/
theorem Merged.of_key {types others : OrderedSet Ref} (same : unionKey others = unionKey types)
    {new : Ref} (stands : plan.Merged trace others new) : plan.Merged trace types new := by
  rcases stands with ⟨more, key, found⟩ | ⟨group, members, listed, key, found⟩
  · exact .inl ⟨more, key.trans same, found⟩
  · exact .inr ⟨group, members, listed, key.trans same, found⟩

theorem MergeOf.mono (grows : ∀ n origin, trace n origin → wider n origin)
    {types : OrderedSet Ref} {new : Ref} (stands : plan.MergeOf trace types new) :
    plan.MergeOf wider types new := by
  unfold MergeOf at stands ⊢
  split at stands
  · exact grows _ _ stands
  · rcases stands with merged | ⟨single, alone, found⟩
    · exact .inl (merged.mono grows)
    · exact .inr ⟨single, alone, grows _ _ found⟩

theorem MemberOf.mono (grows : ∀ n origin, trace n origin → wider n origin)
    {part : Kind × OrderedSet Ref} {new : Ref} (stands : plan.MemberOf trace part new) :
    plan.MemberOf wider part new := by
  rcases stands with ⟨single, alone, found⟩ | merged
  · exact .inl ⟨single, alone, found.mono grows⟩
  · exact .inr (merged.mono grows)

theorem MemberFor.mono (grows : ∀ n origin, trace n origin → wider n origin) {origin : Origin}
    {part : Kind × OrderedSet Ref} {new : Ref} (made : plan.MemberFor origin trace part new) :
    plan.MemberFor origin wider part new := by
  rcases made with ⟨single, alone, apart, copied⟩ | ⟨own, merged⟩
  · exact .inl ⟨single, alone, apart, copied.mono grows⟩
  · exact .inr ⟨own, merged.mono grows⟩

/-- What was made for a part stands for it. -/
theorem MemberFor.memberOf {origin : Origin} {part : Kind × OrderedSet Ref} {new : Ref}
    (made : plan.MemberFor origin trace part new) : plan.MemberOf trace part new := by
  rcases made with ⟨single, alone, _, copied⟩ | ⟨_, merged⟩
  · exact .inl ⟨single, alone, copied⟩
  · exact .inr merged

theorem Unites.mono (grows : ∀ n origin, trace n origin → wider n origin) {origin : Origin}
    {types : OrderedSet Ref} {type : Ty} (unites : plan.Unites conflate origin trace types type) :
    plan.Unites conflate origin wider types type := by
  intro several
  obtain ⟨members, same, made⟩ := unites several
  exact ⟨members, same, made.imp fun _ _ => MemberFor.mono grows⟩

theorem Builds.mono (grows : ∀ n origin, trace n origin → wider n origin)
    {refs : OrderedSet Ref} {kind : Kind} {type : Ty} (builds : plan.Builds trace refs kind type) :
    plan.Builds wider refs kind type := by
  cases builds with
  | primitive p => exact .primitive p
  | enum => exact .enum
  | array items => exact .array (items.mono grows)
  | map values => exact .map (values.mono grows)
  | record properties =>
    exact .record (properties.imp fun _ _ same => ⟨same.name, same.optional, same.type.mono grows⟩)

theorem Realises.mono (grows : ∀ n origin, trace n origin → wider n origin) {origin : Origin}
    {node : Node} (realises : plan.Realises conflate trace origin node) :
    plan.Realises conflate wider origin node := by
  induction realises with
  | copy found children => exact .copy found (children.imp fun _ _ => CopyOf.mono grows)
  | part only builds => exact .part only (builds.mono grows)
  | union several members => exact .union several (members.imp fun _ _ => MemberOf.mono grows)
  | group listed _ ih => exact .group listed ih

end Mono

/-! ## Every reference stands for something -/

section Children

variable {plan conflate} {trace : Trace}

theorem CopyOf.exists_origin {old new : Ref} (stands : plan.CopyOf trace old new) :
    ∃ origin, trace new origin := by
  unfold CopyOf at stands
  split at stands
  · exact ⟨_, stands⟩
  · exact ⟨_, stands⟩

theorem Merged.exists_origin {types : OrderedSet Ref} {new : Ref}
    (stands : plan.Merged trace types new) : ∃ origin, trace new origin := by
  rcases stands with ⟨others, _, found⟩ | ⟨group, _, _, _, found⟩
  · exact ⟨_, found⟩
  · exact ⟨_, found⟩

theorem MergeOf.exists_origin {types : OrderedSet Ref} {new : Ref}
    (stands : plan.MergeOf trace types new) : ∃ origin, trace new origin := by
  unfold MergeOf at stands
  split at stands
  · exact ⟨_, stands⟩
  · rcases stands with merged | ⟨single, _, found⟩
    · exact merged.exists_origin
    · exact ⟨_, found⟩

theorem MemberOf.exists_origin {part : Kind × OrderedSet Ref} {new : Ref}
    (stands : plan.MemberOf trace part new) : ∃ origin, trace new origin := by
  rcases stands with ⟨single, _, found⟩ | merged
  · exact found.exists_origin
  · exact merged.exists_origin

theorem Builds.children {refs : OrderedSet Ref} {kind : Kind} {type : Ty}
    (builds : plan.Builds trace refs kind type) {child : Ref} (member : child ∈ type.children) :
    ∃ origin, trace child origin := by
  cases builds with
  | primitive p => cases member
  | enum => cases member
  | array items =>
    rw [List.mem_singleton.1 member]
    exact items.exists_origin
  | map values =>
    rw [List.mem_singleton.1 member]
    exact values.exists_origin
  | record properties =>
    obtain ⟨property, listed, rfl⟩ := List.mem_map.1 member
    obtain ⟨entry, found, rfl⟩ := List.mem_map.1 listed
    obtain ⟨merged, _, same⟩ := exists_of_mem_right properties found
    exact same.type.exists_origin

theorem Realises.children {origin : Origin} {node : Node}
    (realises : plan.Realises conflate trace origin node) {child : Ref}
    (member : child ∈ node.children) : ∃ origin, trace child origin := by
  induction realises with
  | copy found children =>
    have listed := (Ty.mem_children_withChildren children.length_eq.symm).1 member
    obtain ⟨_, _, stands⟩ := exists_of_mem_right children listed
    exact stands.exists_origin
  | part _ builds => exact builds.children member
  | union _ members =>
    obtain ⟨_, _, stands⟩ := exists_of_mem_right members (mem_firsts.1 member)
    exact stands.exists_origin
  | group _ _ ih => exact ih member

end Children

end Plan

end SchemaGraph
