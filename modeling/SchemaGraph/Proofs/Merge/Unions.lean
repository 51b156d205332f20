import Mathlib
import SchemaGraph.Proofs.Draft.Replacement
import SchemaGraph.Proofs.Merge.Unify
/-!
# Proofs.Merge.Unions -- which unions of a new graph contain themselves

A single contributor to a union stands for itself, and is copied. If it is a member of another group, its
copy is the replacement of that group, which may be a union in turn: the first group hands over to the
second (`Plan.HandsOver`). Only the group that is being replaced is kept from being a member of its own
replacement, so groups that hand over to each other in a circle become unions that contain each other.

Nothing else makes a union a member of a new union, but copying one that was a member before
(`Plan.Replaces.union_of_member`). So where the unions of the source end, a union of the new graph contains
itself exactly if it replaces a group on such a circle (`Plan.Replaces.contains_itself_iff`), and the unions
of the new graph end exactly if there is no circle (`Graph.unions_end_iff_no_circle`). There is none where
no group has a union (`Plan.not_handsOver_of_plain`).
-/

namespace SchemaGraph

set_option autoImplicit false

open Relation

namespace Plan

variable (plan : Plan) (conflate : Bool)

/-- The replacement of the first group is a union that has the replacement of the second one as a member: it
has several parts, and the single contributor to one of them is a member of the second group. -/
structure HandsOver (first second : Nat) : Prop where
  apart : second ≠ first
  part : ∃ members kind refs single, plan.groups[first]? = some members ∧
    (plan.source.contributors conflate (OrderedSet.ofList members).toList).length ≠ 1 ∧
    (kind, refs) ∈ plan.source.contributors conflate (OrderedSet.ofList members).toList ∧
    refs.toList = [single] ∧ plan.groupOf? single = some second

/-- The group becomes a union over what was made for its parts, if it has several. -/
def UnitesGroup (trace : Trace) (index : Nat) (type : Ty) : Prop :=
  ∀ members, plan.groups[index]? = some members →
    plan.Unites conflate (.group index) trace (.ofList members) type

variable {plan conflate}

theorem persistent_unitesGroup : Persistent (plan.UnitesGroup conflate) :=
  fun _ _ grows _ _ unites members listed => (unites members listed).mono grows

theorem HandsOver.lt {first second : Nat} (handsOver : plan.HandsOver conflate first second) :
    first < plan.groups.length := by
  obtain ⟨members, _, _, _, listed, _⟩ := handsOver.part
  exact (List.getElem?_eq_some_iff.1 listed).1

/-- A group without unions hands over to no other one, for its parts consist of its members. -/
theorem not_handsOver_of_plain (plain : ∀ group ∈ plan.groups, ∀ r ∈ group,
    plan.source.kind? r ≠ some .union) (first second : Nat) : ¬ plan.HandsOver conflate first second := by
  rintro ⟨apart, members, kind, refs, single, listed, _, isPart, alone, other⟩
  have inPart := (OrderedSet.mem_iff_of_toList_eq alone).2 rfl
  have leaf := ((plan.source.mem_contributors conflate).1 isPart).leaf inPart
  obtain ⟨_, _, r, member, path⟩ := plan.source.mem_leaves_iff.1 leaf
  have inside : r ∈ members := OrderedSet.mem_ofList.1 member
  have same := plan.source.eq_of_unfolds (plain _ (List.mem_of_getElem? listed) r inside) path
  subst same
  have own := plan.groupOf?_eq_some_iff.2 ⟨members, listed, inside⟩
  exact apart (Option.some.inj (other.symm.trans own))

variable {target : Target} {h : Graph} {trace : Trace}

section Members

variable (replaces : plan.Replaces conflate target h trace)

include replaces

/-- What stands for a group stands for nothing else. -/
theorem Replaces.eq_of_group {n : Ref} {index : Nat} {origin : Origin}
    (one : trace n (.group index)) (other : trace n origin) : origin = .group index := by
  rcases replaces.shared one other with same | ⟨copied, _⟩
  · exact same.symm
  · exact absurd copied (Origin.not_isCopy_group index)

/-- A union that is a copy is the copy of one type. -/
theorem Replaces.copy_unique_of_union {n first second : Ref} (isUnion : h.kind? n = some .union)
    (one : trace n (.copy first)) (other : trace n (.copy second)) : first = second := by
  rcases replaces.shared one other with same | ⟨_, _, p, type⟩
  · cases same
    rfl
  · rw [h.kind?_of_type? type] at isUnion
    cases p <;> cases isUnion

/-- The merge of the contributors to one kind is no union. -/
theorem Replaces.not_union_of_merged {types : List Ref} {part : Kind × OrderedSet Ref}
    (listed : part ∈ plan.source.contributors conflate types) {new : Ref}
    (merged : plan.Merged trace part.2 new) : h.kind? new ≠ some .union := by
  intro isUnion
  obtain ⟨node, found, kind⟩ := Option.map_eq_some_iff.1 isUnion
  have isPart := (plan.source.mem_contributors conflate).1 listed
  obtain ⟨_, raw, rfl, _, builds⟩ := builds_of_merged replaces.explains isPart merged found
  rw [target.kind_normalize] at kind
  exact isPart.kind_ne_union (builds.kind_eq.symm.trans kind)

/-- A union that is the copy of a single contributor is the replacement of its group. -/
theorem Replaces.exists_group_of_single {types : List Ref} {part : Kind × OrderedSet Ref}
    (listed : part ∈ plan.source.contributors conflate types) {single new : Ref}
    (alone : part.2.toList = [single]) (copied : plan.CopyOf trace single new)
    (isUnion : h.kind? new = some .union) :
    ∃ index, plan.groupOf? single = some index ∧ trace new (.group index) := by
  cases own : plan.groupOf? single with
  | some index =>
    simp only [CopyOf, own] at copied
    exact ⟨index, rfl, copied⟩
  | none =>
    simp only [CopyOf, own] at copied
    obtain ⟨node, found, kind⟩ := Option.map_eq_some_iff.1 isUnion
    obtain ⟨raw, realises, rfl⟩ := replaces.explains copied found
    have inPart := (OrderedSet.mem_iff_of_toList_eq alone).2 rfl
    obtain ⟨_, plain, _⟩ := plan.source.mem_leaves_iff.1
      (((plan.source.mem_contributors conflate).1 listed).leaf inPart)
    rw [target.kind_normalize] at kind
    rw [realises.kind_of_copy, kind] at plain
    exact absurd rfl plain

variable (unites : ∀ n index type, trace n (.group index) → h.type? n = some type →
  plan.UnitesGroup conflate trace index type)

include unites

/-- A union is a member of the replacement of a group only if it is the replacement of another one, which the
group hands over to. -/
theorem Replaces.handsOver_of_member {a b : Ref} {first : Nat} (traced : trace a (.group first))
    (member : b ∈ h.members a) (isUnion : h.kind? b = some .union) :
    ∃ second, trace b (.group second) ∧ plan.HandsOver conflate first second := by
  obtain ⟨olds, type, listed⟩ := h.mem_members_iff.1 member
  obtain ⟨node, found, typeEq⟩ := Option.map_eq_some_iff.1 type
  obtain ⟨raw, realises, rfl⟩ := replaces.explains traced found
  have bound : first < plan.groups.length := replaces.known traced
  have group := List.getElem?_eq_getElem bound
  have several : (plan.source.contributors conflate
      (OrderedSet.ofList plan.groups[first]).toList).length ≠ 1 := by
    intro one
    obtain ⟨⟨kind, refs⟩, single⟩ := List.length_eq_one_iff.1 one
    have isPart := Graph.Part.of_contributors_eq single
    have builds := (realises.merge_of_group group).builds_of_part single
    have kindUnion : (target.normalize raw).kind = .union := congrArg Ty.kind typeEq
    rw [target.kind_normalize] at kindUnion
    exact isPart.kind_ne_union (builds.kind_eq.symm.trans kindUnion)
  obtain ⟨news, same, made⟩ := unites a first _ traced type _ group several
  cases same
  obtain ⟨⟨kind, refs⟩, inParts, madeFor⟩ := exists_of_mem_right made (OrderedSet.mem_ofList.1 listed)
  rcases madeFor with ⟨single, alone, others, copied⟩ | ⟨_, merged⟩
  · obtain ⟨second, own, there⟩ := replaces.exists_group_of_single inParts alone copied isUnion
    refine ⟨second, there, fun same => others ⟨second, own, same ▸ rfl⟩, ?_⟩
    exact ⟨_, kind, refs, single, group, several, inParts, alone, own⟩
  · exact absurd isUnion (replaces.not_union_of_merged inParts merged)

/-- A union is a member of a new union only if both are copies, of a union and of a member of it, or if it is
the replacement of a group. -/
theorem Replaces.union_of_member {a b : Ref} (member : b ∈ h.members a)
    (isUnion : h.kind? b = some .union) :
    (∃ oldA oldB, trace a (.copy oldA) ∧ trace b (.copy oldB) ∧ oldB ∈ plan.source.members oldA) ∨
      ∃ index, trace b (.group index) := by
  obtain ⟨members, type, listed⟩ := h.mem_members_iff.1 member
  obtain ⟨origin, traced⟩ := replaces.traced (h.lt_of_type? type)
  obtain ⟨node, found, typeEq⟩ := Option.map_eq_some_iff.1 type
  obtain ⟨raw, realises, rfl⟩ := replaces.explains traced found
  have notRecord : raw.kind ≠ .record := by
    rw [← target.kind_normalize, Node.kind, typeEq]
    intro same
    cases same
  rw [target.type_normalize_of_kind raw notRecord] at typeEq
  cases realises with
  | @copy old source news sourceNode related =>
    have sourceUnion : ∃ olds : OrderedSet Ref, source.type = .union olds := by
      refine Ty.exists_union_of_kind ?_
      rw [← source.type.kind_withChildren news]
      exact congrArg Ty.kind typeEq
    obtain ⟨olds, sourceType⟩ := sourceUnion
    simp only [sourceType, Ty.withChildren, Ty.union.injEq] at typeEq
    subst typeEq
    obtain ⟨o, inside, stands⟩ := exists_of_mem_right related (OrderedSet.mem_ofList.1 listed)
    cases own : plan.groupOf? o with
    | some index =>
      simp only [CopyOf, own] at stands
      exact .inr ⟨index, stands⟩
    | none =>
      simp only [CopyOf, own] at stands
      refine .inl ⟨old, o, traced, stands, plan.source.mem_members_iff.2 ⟨olds, ?_, ?_⟩⟩
      · rw [Graph.type?, sourceNode]
        exact congrArg some sourceType
      · rw [Node.children, sourceType] at inside
        exact inside
  | part _ builds => cases builds <;> cases typeEq
  | union several related =>
    simp only [Ty.union.injEq] at typeEq
    subst typeEq
    obtain ⟨part, inParts, stands⟩ := exists_of_mem_right related (OrderedSet.mem_ofList.1 listed)
    rcases stands with ⟨single, alone, copied⟩ | merged
    · obtain ⟨index, _, there⟩ := replaces.exists_group_of_single inParts alone copied isUnion
      exact .inr ⟨index, there⟩
    · exact absurd isUnion (replaces.not_union_of_merged inParts merged)
  | @group index =>
    obtain ⟨second, there, _⟩ := replaces.handsOver_of_member unites traced member isUnion
    exact .inr ⟨second, there⟩

/-! ## Paths of unions -/

/-- A path of unions ends at a replacement of a group, or it comes of a path of unions in the source. -/
theorem Replaces.path_of_unions {a b : Ref} (path : TransGen (fun a b => b ∈ h.members a) a b)
    (isUnion : h.kind? b = some .union) :
    (∃ oldA oldB, trace a (.copy oldA) ∧ trace b (.copy oldB) ∧
        TransGen (fun a b => b ∈ plan.source.members a) oldA oldB) ∨
      ∃ index, trace b (.group index) := by
  induction path with
  | single member =>
    refine (replaces.union_of_member unites member isUnion).imp_left ?_
    rintro ⟨oldA, oldB, tracedA, tracedB, inside⟩
    exact ⟨oldA, oldB, tracedA, tracedB, .single inside⟩
  | @tail middle last _ member ih =>
    have middleUnion := h.kind?_eq_union member
    refine (replaces.union_of_member unites member isUnion).imp_left ?_
    rintro ⟨again, oldB, tracedAgain, tracedB, inside⟩
    rcases ih middleUnion with ⟨oldA, oldMiddle, tracedA, tracedMiddle, before⟩ | ⟨index, group⟩
    · cases replaces.copy_unique_of_union middleUnion tracedMiddle tracedAgain
      exact ⟨oldA, oldB, tracedA, tracedB, before.tail inside⟩
    · cases replaces.eq_of_group group tracedAgain

/-- A path of unions from the replacement of a group leads through groups that hand over to each other. -/
theorem Replaces.path_of_groups {a b : Ref} {first : Nat} (traced : trace a (.group first))
    (path : TransGen (fun a b => b ∈ h.members a) a b) (isUnion : h.kind? b = some .union) :
    ∃ last, trace b (.group last) ∧ TransGen (plan.HandsOver conflate) first last := by
  induction path with
  | single member =>
    obtain ⟨last, there, handsOver⟩ := replaces.handsOver_of_member unites traced member isUnion
    exact ⟨last, there, .single handsOver⟩
  | tail _ member ih =>
    obtain ⟨middle, middleTraced, before⟩ := ih (h.kind?_eq_union member)
    obtain ⟨last, there, handsOver⟩ := replaces.handsOver_of_member unites middleTraced member isUnion
    exact ⟨last, there, before.tail handsOver⟩

omit replaces in
/-- The replacement of a group has that of every group that it hands over to as a member. -/
theorem member_of_handsOver {a : Ref} {type : Ty} {first second : Nat}
    (traced : trace a (.group first)) (found : h.type? a = some type)
    (handsOver : plan.HandsOver conflate first second) :
    ∃ b, trace b (.group second) ∧ b ∈ h.members a := by
  obtain ⟨apart, members, kind, refs, single, listed, several, inParts, alone, own⟩ := handsOver
  obtain ⟨news, rfl, made⟩ := unites a first type traced found members listed several
  obtain ⟨b, isNew, madeFor⟩ := exists_of_mem_left made inParts
  refine ⟨b, ?_, h.mem_members_iff.2 ⟨_, found, OrderedSet.mem_ofList.2 isNew⟩⟩
  rcases madeFor with ⟨other, same, _, copied⟩ | ⟨only, _⟩
  · cases alone.symm.trans same
    simpa only [CopyOf, own] using copied
  · obtain ⟨index, here, origin⟩ := only single alone
    cases origin
    exact absurd (Option.some.inj (own.symm.trans here)) apart

/-- Groups that hand over to each other become a path of unions. -/
theorem Replaces.path_of_handsOver {a : Ref} {first last : Nat} (traced : trace a (.group first))
    (path : TransGen (plan.HandsOver conflate) first last) :
    ∃ b, trace b (.group last) ∧ TransGen (fun a b => b ∈ h.members a) a b := by
  have step : ∀ {n : Ref} {i j : Nat}, trace n (.group i) → plan.HandsOver conflate i j →
      ∃ b, trace b (.group j) ∧ b ∈ h.members n := by
    intro n i j here handsOver
    obtain ⟨type, found⟩ := h.exists_type? (replaces.lt here)
    exact member_of_handsOver unites here found handsOver
  induction path with
  | single handsOver =>
    obtain ⟨b, there, member⟩ := step traced handsOver
    exact ⟨b, there, .single member⟩
  | tail _ handsOver ih =>
    obtain ⟨middle, middleTraced, before⟩ := ih
    obtain ⟨b, there, member⟩ := step middleTraced handsOver
    exact ⟨b, there, before.tail member⟩

/-- Where the unions of the source end, a union of the new graph contains itself exactly if it replaces a group
on a circle of groups that hand over to each other. -/
theorem Replaces.contains_itself_iff (ends : plan.source.UnionsEnd) {n : Ref} :
    TransGen (fun a b => b ∈ h.members a) n n ↔
      ∃ index, trace n (.group index) ∧ TransGen (plan.HandsOver conflate) index index := by
  constructor
  · intro cycle
    have isUnion : h.kind? n = some .union := by
      obtain ⟨_, first, _⟩ := TransGen.head'_iff.1 cycle
      exact h.kind?_eq_union first
    rcases replaces.path_of_unions unites cycle isUnion with ⟨one, other, here, there, path⟩ | ⟨index, group⟩
    · cases replaces.copy_unique_of_union isUnion here there
      exact absurd path (ends one)
    · obtain ⟨last, there, path⟩ := replaces.path_of_groups unites group cycle isUnion
      cases replaces.eq_of_group group there
      exact ⟨index, group, path⟩
  · rintro ⟨index, traced, circle⟩
    obtain ⟨b, there, path⟩ := replaces.path_of_handsOver unites traced circle
    cases replaces.unique traced there
    exact path

end Members

end Plan

/-- Unification replaces a group by a union over what was made for its parts, if it has several. -/
theorem Unifier.fillsWith_unitesGroup (unifier : Unifier) (plan : Plan) :
    unifier.replacement.FillsWith plan unifier.conflate (plan.UnitesGroup unifier.conflate) := by
  intro stage index members slot sound listed awaits
  refine Drafting.Advances.mono (unifier.advances_uniting sound listed awaits) ?_
  rintro r after _ _ ⟨same, filled, unites⟩
  refine ⟨same, filled, fun node found others listedToo => ?_⟩
  cases listed.symm.trans listedToo
  exact unites node found

namespace Graph

/-- If the unions of a graph end and replacing groups of its types by their unification has a result, then the
unions of the result end, so that every recursion over their members does, exactly if no groups hand over to
each other in a circle. -/
theorem unions_end_iff_no_circle (source : Graph) (label : String) (target : Target) (unifier : Unifier)
    {groups : List (List Ref)} {plan : Plan} {h : Graph}
    (planned : Plan.ofGroups? source groups = .ok plan) (ends : source.UnionsEnd)
    (done : (source.replaceGroups label target groups unifier.replacement).result = .ok h) :
    (h.UnionsEnd ↔ ∀ index, ¬ TransGen (plan.HandsOver unifier.conflate) index index) ∧
      (h.UnionsEnd ↔ WellFounded fun m r => m ∈ h.members r) := by
  obtain ⟨trace, replaces, made⟩ := replaces_of_replaceGroups Plan.persistent_unitesGroup
    (unifier.fillsWith_unitesGroup plan) planned done
  have unites : ∀ n index type, trace n (.group index) → h.type? n = some type →
      plan.UnitesGroup unifier.conflate trace index type := by
    intro n index type traced found
    obtain ⟨m, other, here, type_m, unites⟩ := made index (replaces.known traced)
    cases replaces.unique traced here
    cases found.symm.trans type_m
    exact unites
  have sourceEnds : plan.source.UnionsEnd := by
    rw [(Plan.eq_of_ofGroups? planned).1]
    exact ends
  refine ⟨⟨fun noneContains index circle => ?_, fun noCircle n cycle => ?_⟩, h.unionsEnd_iff_wellFounded⟩
  · obtain ⟨_, first, _⟩ := TransGen.head'_iff.1 circle
    obtain ⟨n, _, traced, _⟩ := made index first.lt
    exact noneContains n ((replaces.contains_itself_iff unites sourceEnds).2 ⟨index, traced, circle⟩)
  · obtain ⟨index, _, circle⟩ := (replaces.contains_itself_iff unites sourceEnds).1 cycle
    exact noCircle index circle

/-- A text, an integer, and a union around each. -/
def crossed : Graph :=
  ⟨#[⟨.primitive .string, .empty⟩, ⟨.primitive .integer, .empty⟩, ⟨.union (.ofList [0]), .empty⟩,
      ⟨.union (.ofList [1]), .empty⟩],
    .ofList [("A", 2), ("B", 3)], firstFault?_eq_none_iff.1 (by decide +kernel)⟩

/-- Each union in a group with what the other one is around. -/
def crossedPlan : Plan := ⟨crossed, [[2, 1], [3, 0]], by decide, by decide, by decide⟩

/-- The union of an integer and the other union, and the union of the first one and a text. -/
def crossedUnited : Graph :=
  ⟨#[⟨.union (.ofList [1, 2]), .empty⟩, ⟨.primitive .integer, .empty⟩, ⟨.union (.ofList [0, 3]), .empty⟩,
      ⟨.primitive .string, .empty⟩],
    .ofList [("A", 0), ("B", 2)], firstFault?_eq_none_iff.1 (by decide +kernel)⟩

theorem planned_crossed : Plan.ofGroups? crossed [[2, 1], [3, 0]] = .ok crossedPlan :=
  Plan.ofGroups?_eq_ok crossedPlan.nonempty crossedPlan.members_lt crossedPlan.disjoint

theorem unionsEnd_crossed : crossed.UnionsEnd := crossed.unionsEnd_of_lt (by decide)

/-- Each group has the integer and the text as its parts. -/
theorem contributors_crossed {group : List Ref} (listed : group = [2, 1] ∨ group = [3, 0]) :
    crossedPlan.source.contributors true (OrderedSet.ofList group).toList =
      [(.integer, ⟨[1], by decide⟩), (.string, ⟨[0], by decide⟩)] := by
  rcases listed with rfl | rfl <;> cbv

theorem replaceGroups_crossed :
    (crossed.replaceGroups "rewrite" .standard [[2, 1], [3, 0]]
      (Unifier.replacement ⟨.standard, true⟩)).result = .ok crossedUnited := by
  let unifier : Unifier := ⟨.standard, true⟩
  let replace := Drafting.replaceGroup crossedPlan "rewrite" unifier.replacement
  have turns : crossedPlan.groups.zipIdx.forM replace =
      (replace ([2, 1], 0) >>= fun _ => replace ([3, 0], 1) >>= fun _ => pure ()) := rfl
  have first := @Drafting.unify_of_several crossedPlan unifier (.ofList [2, 1]) _ rfl
    (contributors_crossed (.inl rfl)) (by decide)
  have second := @Drafting.unify_of_several crossedPlan unifier (.ofList [3, 0]) _ rfl
    (contributors_crossed (.inr rfl)) (by decide)
  rw [replaceGroups, planned_crossed]
  -- with the unions written out, the rest evaluates
  simp only [Drafting.replaceAll, turns, replace, Drafting.replaceGroup, Unifier.replacement, unifier,
    first, second]
  cbv

/-- The text belongs to the second group, and the integer to the first one. -/
theorem handsOver_crossed :
    crossedPlan.HandsOver true 0 1 ∧ crossedPlan.HandsOver true 1 0 := by
  refine ⟨⟨by decide, [2, 1], .string, ⟨[0], by decide⟩, 0, rfl, ?_, ?_, rfl, by decide⟩,
    ⟨by decide, [3, 0], .integer, ⟨[1], by decide⟩, 1, rfl, ?_, ?_, rfl, by decide⟩⟩
  · rw [contributors_crossed (.inl rfl)]
    decide
  · rw [contributors_crossed (.inl rfl)]
    decide
  · rw [contributors_crossed (.inr rfl)]
    decide
  · rw [contributors_crossed (.inr rfl)]
    decide

/-- The two groups hand over to each other, so their unions do not end. -/
theorem crossed_unions_do_not_end :
    (Plan.ofGroups? crossed [[2, 1], [3, 0]] = .ok crossedPlan ∧ crossed.UnionsEnd ∧
      (crossed.replaceGroups "rewrite" .standard [[2, 1], [3, 0]]
        (Unifier.replacement ⟨.standard, true⟩)).result = .ok crossedUnited) ∧
      TransGen (crossedPlan.HandsOver true) 0 0 ∧ ¬ crossedUnited.UnionsEnd ∧
      ¬ WellFounded fun m r => m ∈ crossedUnited.members r := by
  have circle : TransGen (crossedPlan.HandsOver true) 0 0 :=
    .tail (.single handsOver_crossed.1) handsOver_crossed.2
  obtain ⟨noCircle, ending⟩ := unions_end_iff_no_circle crossed "rewrite" .standard ⟨.standard, true⟩
    planned_crossed unionsEnd_crossed replaceGroups_crossed
  have endless : ¬ crossedUnited.UnionsEnd := fun ends => noCircle.1 ends 0 circle
  exact ⟨⟨planned_crossed, unionsEnd_crossed, replaceGroups_crossed⟩, circle, endless,
    fun ends => endless (ending.2 ends)⟩

/-- Unification builds unions that contain themselves. -/
theorem union_contains_itself :
    ¬ ∀ (source : Graph) (label : String) (target : Target) (unifier : Unifier) (groups : List (List Ref))
        (plan : Plan) (h : Graph), Plan.ofGroups? source groups = .ok plan → source.UnionsEnd →
      (source.replaceGroups label target groups unifier.replacement).result = .ok h → h.UnionsEnd := by
  intro always
  have ends := always crossed "rewrite" .standard ⟨.standard, true⟩ _ _ _ planned_crossed unionsEnd_crossed
    replaceGroups_crossed
  have there : 2 ∈ crossedUnited.members 0 := by decide
  have back : 0 ∈ crossedUnited.members 2 := by decide
  exact ends 0 (.tail (.single there) back)

end Graph

end SchemaGraph
