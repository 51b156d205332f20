import SchemaGraph.Proofs.Merge.Groups
/-!
# Proofs.Merge.Order -- the order of groups does not show in what they become

The order in which groups are replaced decides what a set of types comes to: the reference of a group, a
type that was remembered for the set, or a fresh one. It does not decide what is built for it. A type of
the new graph is the copy of a type, or was built for a set of types, and in which of the ways above it
was come by, and in which order the set was listed, changes the order of properties, cases and members
only (`Plan.Regroups.sameForm`).

So two orders of the groups and of their members lead to two graphs whose names lead to the same trees, as
long as nobody looks at that order (`Graph.replaceGroups_order`). `Graph.SameForm` is what is left of a
tree then.
-/

namespace SchemaGraph

set_option autoImplicit false

/-! ## Trees without an order -/

/-- The two types are the same but for the order of cases, members and properties, and for their
constituents, which are related. Related types are of one kind, so the members of unions are related kind
by kind. -/
inductive Ty.SameForm (rel : Ref → Ref → Prop) : Ty → Ty → Prop
  | primitive {p : Primitive} : SameForm rel (.primitive p) (.primitive p)
  | array {a b : Ref} : rel a b → SameForm rel (.array a) (.array b)
  | map {a b : Ref} : rel a b → SameForm rel (.map a) (.map b)
  | enum {l r : OrderedSet String} : (∀ c, c ∈ l ↔ c ∈ r) → SameForm rel (.enum l) (.enum r)
  | union {l r : OrderedSet Ref} : (∀ m ∈ l, ∃ n ∈ r, rel m n) → (∀ n ∈ r, ∃ m ∈ l, rel m n) →
      SameForm rel (.union l) (.union r)
  | record {l r : Record} : l.fixed = r.fixed →
      (∀ name, name ∈ l.properties.keys ↔ name ∈ r.properties.keys) →
      (∀ name p q, l.property? name = some p → r.property? name = some q →
        p.optional = q.optional ∧ rel p.type q.type) →
      SameForm rel (.record l) (.record r)

/-- The types of two graphs unfold to one tree but for the order: kinds, names of properties, optional and
fixed flags, cases of enumerations and members of unions are the same at every depth. -/
def Graph.SameForm (g : Graph) (a : Ref) (h : Graph) (b : Ref) : Prop :=
  ∃ rel : Ref → Ref → Prop, rel a b ∧ ∀ x y, rel x y →
    ∃ s t, g.type? x = some s ∧ h.type? y = some t ∧ s.SameForm rel t

namespace Ty

variable {rel : Ref → Ref → Prop}

theorem SameForm.kind_eq {s t : Ty} (same : s.SameForm rel t) : s.kind = t.kind := by
  cases same <;> rfl

/-- A target may change the order of properties, and no more. -/
theorem SameForm.normalize {s t : Node} (same : s.type.SameForm rel t.type) (target : Target) :
    (target.normalize s).type.SameForm rel (target.normalize t).type := by
  by_cases isRecord : s.kind = .record
  · obtain ⟨l, left⟩ := s.type.exists_record_of_kind isRecord
    obtain ⟨r, right⟩ := t.type.exists_record_of_kind (same.kind_eq.symm.trans isRecord)
    rw [left, right] at same
    cases same with
    | record fixed names types =>
      obtain ⟨l', left', fixedL, permL⟩ := target.record_normalize s left
      obtain ⟨r', right', fixedR, permR⟩ := target.record_normalize t right
      rw [left', right']
      refine .record (fixedL.trans (fixed.trans fixedR.symm)) (fun name => ?_) fun name p q foundP foundQ => ?_
      · rw [OrderedMap.keys, OrderedMap.keys, (permL.map Prod.fst).mem_iff, (permR.map Prod.fst).mem_iff]
        exact names name
      · refine types name p q ?_ ?_
        · exact (OrderedMap.get?_eq_of_perm permL name).symm.trans foundP
        · exact (OrderedMap.get?_eq_of_perm permR name).symm.trans foundQ
  · have other : t.kind ≠ .record := fun isRecord' => isRecord (same.kind_eq.trans isRecord')
    rw [target.type_normalize_of_kind s isRecord, target.type_normalize_of_kind t other]
    exact same

/-- Putting constituents in place of those of one type makes types of one form if they are related. -/
theorem sameForm_withChildren {one two : Ref → Ref → Prop} {type : Ty} {news others : List Ref}
    (left : List.Forall₂ one type.children news) (right : List.Forall₂ two type.children others)
    (meet : ∀ old n m, one old n → two old m → rel n m) :
    (type.withChildren news).SameForm rel (type.withChildren others) := by
  cases type with
  | primitive p => exact .primitive
  | enum cases => exact .enum fun _ => .rfl
  | array items =>
    cases left with
    | cons left _ =>
      cases right with
      | cons right _ => exact .array (meet _ _ _ left right)
  | map values =>
    cases left with
    | cons left _ =>
      cases right with
      | cons right _ => exact .map (meet _ _ _ left right)
  | union members =>
    refine .union (fun m listed => ?_) fun n listed => ?_
    · obtain ⟨old, member, here⟩ := exists_of_mem_right left (OrderedSet.mem_ofList.1 listed)
      obtain ⟨n, there, also⟩ := exists_of_mem_left right member
      exact ⟨n, OrderedSet.mem_ofList.2 there, meet _ _ _ here also⟩
    · obtain ⟨old, member, here⟩ := exists_of_mem_right right (OrderedSet.mem_ofList.1 listed)
      obtain ⟨m, there, also⟩ := exists_of_mem_left left member
      exact ⟨m, OrderedSet.mem_ofList.2 there, meet _ _ _ also here⟩
  | record r =>
    have types : (Ty.record r).children = r.properties.entries.map fun entry => entry.2.type :=
      List.map_map
    rw [types] at left right
    refine .record rfl (fun name => ?_) fun name p q foundP foundQ => ?_
    · rw [OrderedMap.keys, OrderedMap.keys]
      simp only [keys_retype]
    · obtain ⟨⟨x, old⟩, listed, nameX, optionalP, here⟩ :=
        exists_of_mem_right (forall₂_retype left) (OrderedMap.get?_eq_some_iff.1 foundP)
      obtain ⟨⟨y, again⟩, listed', nameY, optionalQ, there⟩ :=
        exists_of_mem_right (forall₂_retype right) (OrderedMap.get?_eq_some_iff.1 foundQ)
      cases nameX
      cases nameY
      have same : old = again := by
        have one := OrderedMap.get?_eq_some_iff.2 listed
        exact Option.some.inj (one.symm.trans (OrderedMap.get?_eq_some_iff.2 listed'))
      cases same
      exact ⟨optionalP.trans optionalQ.symm, meet _ _ _ here there⟩

end Ty

/-- What is related to the same list is related element by element. -/
theorem forall₂_meet {α β γ : Type} {one : α → β → Prop} {two : α → γ → Prop} {rel : β → γ → Prop}
    {xs : List α} {ys : List β} {zs : List γ} (left : List.Forall₂ one xs ys)
    (right : List.Forall₂ two xs zs) (meet : ∀ x y z, one x y → two x z → rel y z) :
    List.Forall₂ rel ys zs := by
  induction left generalizing zs with
  | nil =>
    cases right
    exact .nil
  | cons here _ ih =>
    cases right with
    | cons there rest => exact .cons (meet _ _ _ here there) (ih rest)

/-! ## The same groups in another order -/

/-- The same groups in another order, the members of each in another order. -/
def SameGroups (groups others : List (List Ref)) : Prop :=
  ∃ shuffled, groups.Perm shuffled ∧ List.Forall₂ List.Perm shuffled others

theorem SameGroups.exists_right {groups others : List (List Ref)} (same : SameGroups groups others)
    {group : List Ref} (listed : group ∈ groups) : ∃ other ∈ others, ∀ r, r ∈ other ↔ r ∈ group := by
  obtain ⟨shuffled, perm, members⟩ := same
  obtain ⟨other, there, inner⟩ := exists_of_mem_left members (perm.mem_iff.1 listed)
  exact ⟨other, there, fun r => inner.mem_iff.symm⟩

theorem SameGroups.exists_left {groups others : List (List Ref)} (same : SameGroups groups others)
    {other : List Ref} (listed : other ∈ others) : ∃ group ∈ groups, ∀ r, r ∈ other ↔ r ∈ group := by
  obtain ⟨shuffled, perm, members⟩ := same
  obtain ⟨group, there, inner⟩ := exists_of_mem_right members listed
  exact ⟨group, perm.mem_iff.2 there, fun r => inner.mem_iff.symm⟩

theorem SameGroups.flatten_perm {groups others : List (List Ref)} (same : SameGroups groups others) :
    groups.flatten.Perm others.flatten := by
  obtain ⟨shuffled, perm, members⟩ := same
  exact perm.flatten.trans (List.Perm.flatten_congr members)

namespace Plan

/-- The second plan replaces the same groups, whatever their order and that of their members. -/
structure Regroups (plan other : Plan) : Prop where
  source : other.source = plan.source
  right : ∀ group ∈ plan.groups, ∃ shuffled ∈ other.groups, ∀ r, r ∈ shuffled ↔ r ∈ group
  left : ∀ shuffled ∈ other.groups, ∃ group ∈ plan.groups, ∀ r, r ∈ shuffled ↔ r ∈ group

/-- The types of the two new graphs are copies of one type, or were built for the same types. -/
def Counterparts (plan other : Plan) (trace trace' : Trace) (n m : Ref) : Prop :=
  (∃ old, trace n (.copy old) ∧ trace' m (.copy old)) ∨
    ∃ types others : OrderedSet Ref, (∀ r, r ∈ others ↔ r ∈ types) ∧
      plan.BuiltFor trace types n ∧ other.BuiltFor trace' others m

variable {plan other : Plan} {trace trace' : Trace} {conflate : Bool}

/-! ## Groups in both plans -/

theorem Regroups.symm (regroups : plan.Regroups other) : other.Regroups plan where
  source := regroups.source.symm
  right group listed := (regroups.left group listed).imp fun _ => And.imp_right fun same r => (same r).symm
  left group listed := (regroups.right group listed).imp fun _ => And.imp_right fun same r => (same r).symm

/-- A group of one plan has its place in the other. -/
theorem Regroups.exists_groupOf? (regroups : plan.Regroups other) {r : Ref} {index : Nat}
    (own : plan.groupOf? r = some index) :
    ∃ place, ∀ s, other.groupOf? s = some place ↔ plan.groupOf? s = some index := by
  obtain ⟨group, listed, _⟩ := groupOf?_eq_some_iff.1 own
  obtain ⟨shuffled, there, same⟩ := regroups.right group (List.mem_of_getElem? listed)
  obtain ⟨place, found⟩ := List.mem_iff_getElem?.1 there
  refine ⟨place, fun s => ?_⟩
  simp only [groupOf?_eq_some_iff, found, listed, Option.some.injEq, exists_eq_left', same]

theorem Regroups.groupOf?_eq_none (regroups : plan.Regroups other) {r : Ref}
    (free : plan.groupOf? r = none) : other.groupOf? r = none := by
  cases own : other.groupOf? r with
  | none => rfl
  | some place =>
    obtain ⟨index, same⟩ := regroups.symm.exists_groupOf? own
    have found := (same r).2 own
    rw [free] at found
    cases found

/-- Types that have a group in common have one in common in the other plan. -/
theorem Regroups.exists_commonGroup? (regroups : plan.Regroups other) {types others : OrderedSet Ref}
    (same : ∀ r, r ∈ others ↔ r ∈ types) {index : Nat}
    (common : plan.commonGroup? types.toList = some index) :
    ∃ place, other.commonGroup? others.toList = some place ∧
      ∃ r, plan.groupOf? r = some index ∧ other.groupOf? r = some place := by
  obtain ⟨nonempty, all⟩ := commonGroup?_eq_some_iff.1 common
  obtain ⟨r, member⟩ := List.exists_mem_of_ne_nil _ nonempty
  obtain ⟨place, places⟩ := regroups.exists_groupOf? (all r member)
  refine ⟨place, commonGroup?_eq_some_iff.2 ⟨List.ne_nil_of_mem ((same r).2 member), fun s listed => ?_⟩,
    r, all r member, (places r).2 (all r member)⟩
  exact (places s).2 (all s ((same s).1 listed))

theorem Regroups.commonGroup?_eq_none (regroups : plan.Regroups other) {types others : OrderedSet Ref}
    (same : ∀ r, r ∈ others ↔ r ∈ types) (apart : plan.commonGroup? types.toList = none) :
    other.commonGroup? others.toList = none := by
  cases common : other.commonGroup? others.toList with
  | none => rfl
  | some place =>
    obtain ⟨index, found, _⟩ := regroups.symm.exists_commonGroup? (fun r => (same r).symm) common
    rw [apart] at found
    cases found

/-! ## What a set comes to -/

/-- What is remembered for a set was built for a set with the same elements. -/
theorem Merged.exists_builtFor {types : OrderedSet Ref} {n : Ref} (merged : plan.Merged trace types n) :
    ∃ set, (∀ r, r ∈ set ↔ r ∈ types) ∧ plan.BuiltFor trace set n := by
  rcases merged with ⟨set, key, traced⟩ | ⟨index, members, listed, key, traced⟩
  · exact ⟨set, unionKey_eq_iff.1 key, .inl traced⟩
  · exact ⟨_, unionKey_eq_iff.1 key, .inr ⟨index, members, listed, rfl, traced⟩⟩

/-- The reference of a group was built for its members. -/
theorem exists_builtFor_of_group {r n : Ref} {index : Nat} (own : plan.groupOf? r = some index)
    (traced : trace n (.group index)) :
    ∃ set, (∀ s, s ∈ set ↔ plan.groupOf? s = some index) ∧ plan.BuiltFor trace set n := by
  obtain ⟨members, listed, _⟩ := groupOf?_eq_some_iff.1 own
  refine ⟨.ofList members, fun s => ?_, .inr ⟨index, members, listed, rfl, traced⟩⟩
  simp only [OrderedSet.mem_ofList, groupOf?_eq_some_iff, listed, Option.some.injEq, exists_eq_left']

/-- What is remembered for a single type stands for it: only several types are merged, and the type may be
a group by itself. -/
theorem Merged.copyOf (plural : ∀ n types, trace n (.merge types) → 1 < types.size)
    {types : OrderedSet Ref} {single n : Ref} (alone : types.toList = [single])
    (merged : plan.Merged trace types n) : plan.CopyOf trace single n := by
  have only : ∀ {set : OrderedSet Ref}, unionKey set = unionKey types → ∀ r, r ∈ set ↔ r = single := by
    intro set key r
    rw [unionKey_eq_iff.1 key, OrderedSet.mem_iff_of_toList_eq alone]
  rcases merged with ⟨set, key, traced⟩ | ⟨index, members, listed, key, traced⟩
  · have size := length_eq_of_mem_iff set.nodup types.nodup (unionKey_eq_iff.1 key)
    have several : 1 < set.toList.length := plural n set traced
    rw [size, alone] at several
    exact absurd several (Nat.lt_irrefl 1)
  · have member := OrderedSet.mem_ofList.1 ((only key single).2 rfl)
    have own := groupOf?_eq_some_iff.2 ⟨members, listed, member⟩
    simp only [CopyOf, own]
    exact traced

theorem MergeOf.copyOf (plural : ∀ n types, trace n (.merge types) → 1 < types.size)
    {types : OrderedSet Ref} {single n : Ref} (alone : types.toList = [single])
    (stands : plan.MergeOf trace types n) : plan.CopyOf trace single n := by
  unfold MergeOf at stands
  rw [alone, commonGroup?_singleton] at stands
  cases own : plan.groupOf? single with
  | some index =>
    simp only [own] at stands
    simp only [CopyOf, own]
    exact stands
  | none =>
    simp only [own] at stands
    rcases stands with merged | ⟨again, same, traced⟩
    · exact merged.copyOf plural alone
    · cases same
      simp only [CopyOf, own]
      exact traced

theorem MemberOf.copyOf (plural : ∀ n types, trace n (.merge types) → 1 < types.size)
    {part : Kind × OrderedSet Ref} {single n : Ref} (alone : part.2.toList = [single])
    (stands : plan.MemberOf trace part n) : plan.CopyOf trace single n := by
  rcases stands with ⟨again, same, copied⟩ | merged
  · cases alone.symm.trans same
    exact copied
  · exact merged.copyOf plural alone

/-- What is built for records has their properties, and is fixed if one of them is. -/
theorem Builds.exists_properties {refs : OrderedSet Ref} {built : Ty}
    (builds : plan.Builds trace refs .record built) :
    ∃ properties, built = .record ⟨properties, (plan.source.recordsOf refs).any Record.fixed⟩ ∧
      List.Forall₂ (plan.PropertyOf trace) (mergeProperties (plan.source.recordsOf refs))
        properties.entries := by
  generalize own : Kind.record = kind at builds
  cases builds with
  | primitive p => cases p <;> cases own
  | record related => exact ⟨_, rfl, related⟩
  | _ => cases own

theorem toList_eq_singleton {types others : OrderedSet Ref} (same : ∀ r, r ∈ others ↔ r ∈ types)
    {single : Ref} (alone : types.toList = [single]) : others.toList = [single] := by
  have perm := (List.perm_ext_iff_of_nodup others.nodup types.nodup).2 same
  rw [alone] at perm
  exact List.perm_singleton.1 perm

/-! ## Counterparts -/

section Regrouped

variable (regroups : plan.Regroups other)

include regroups

theorem Regroups.counterparts_of_group {r n m : Ref} {index place : Nat}
    (own : plan.groupOf? r = some index) (there : other.groupOf? r = some place)
    (left : trace n (.group index)) (right : trace' m (.group place)) :
    plan.Counterparts other trace trace' n m := by
  obtain ⟨again, places⟩ := regroups.exists_groupOf? own
  cases Option.some.inj (there.symm.trans ((places r).2 own))
  obtain ⟨types, members, builtLeft⟩ := exists_builtFor_of_group own left
  obtain ⟨others, shuffled, builtRight⟩ := exists_builtFor_of_group there right
  exact .inr ⟨types, others, fun s => by rw [shuffled, places, members], builtLeft, builtRight⟩

/-- What stands for one type in both graphs. -/
theorem Regroups.counterparts_of_copyOf {old n m : Ref} (left : plan.CopyOf trace old n)
    (right : other.CopyOf trace' old m) : plan.Counterparts other trace trace' n m := by
  unfold CopyOf at left right
  cases own : plan.groupOf? old with
  | some index =>
    obtain ⟨place, places⟩ := regroups.exists_groupOf? own
    have there := (places old).2 own
    rw [own] at left
    rw [there] at right
    exact regroups.counterparts_of_group own there left right
  | none =>
    rw [own] at left
    rw [regroups.groupOf?_eq_none own] at right
    exact .inl ⟨old, left, right⟩

variable (plural : ∀ n types, trace n (.merge types) → 1 < types.size)
  (plural' : ∀ n types, trace' n (.merge types) → 1 < types.size)

include plural plural'

/-- What one set of types comes to in both graphs. -/
theorem Regroups.counterparts_of_mergeOf {types others : OrderedSet Ref}
    (same : ∀ r, r ∈ others ↔ r ∈ types) {n m : Ref} (left : plan.MergeOf trace types n)
    (right : other.MergeOf trace' others m) : plan.Counterparts other trace trace' n m := by
  by_cases single : ∃ old, types.toList = [old]
  · obtain ⟨old, alone⟩ := single
    exact regroups.counterparts_of_copyOf (left.copyOf plural alone)
      (right.copyOf plural' (toList_eq_singleton same alone))
  · have single' : ¬ ∃ old, others.toList = [old] := fun ⟨old, alone⟩ =>
      single ⟨old, toList_eq_singleton (fun r => (same r).symm) alone⟩
    unfold MergeOf at left right
    cases common : plan.commonGroup? types.toList with
    | some index =>
      obtain ⟨place, common', r, own, there⟩ := regroups.exists_commonGroup? same common
      rw [common] at left
      rw [common'] at right
      exact regroups.counterparts_of_group own there left right
    | none =>
      rw [common] at left
      rw [regroups.commonGroup?_eq_none same common] at right
      have mergedLeft := left.resolve_right fun ⟨old, alone, _⟩ => single ⟨old, alone⟩
      have mergedRight := right.resolve_right fun ⟨old, alone, _⟩ => single' ⟨old, alone⟩
      obtain ⟨set, members, builtLeft⟩ := mergedLeft.exists_builtFor
      obtain ⟨set', members', builtRight⟩ := mergedRight.exists_builtFor
      exact .inr ⟨set, set', fun r => by rw [members', same, members], builtLeft, builtRight⟩

/-- What the contributors to one kind come to in both graphs. -/
theorem Regroups.counterparts_of_memberOf {part part' : Kind × OrderedSet Ref}
    (same : ∀ r, r ∈ part'.2 ↔ r ∈ part.2) {n m : Ref} (left : plan.MemberOf trace part n)
    (right : other.MemberOf trace' part' m) : plan.Counterparts other trace trace' n m := by
  by_cases single : ∃ old, part.2.toList = [old]
  · obtain ⟨old, alone⟩ := single
    exact regroups.counterparts_of_copyOf (left.copyOf plural alone)
      (right.copyOf plural' (toList_eq_singleton same alone))
  · have mergedLeft := left.resolve_left fun ⟨old, alone, _⟩ => single ⟨old, alone⟩
    have mergedRight := right.resolve_left fun ⟨old, alone, _⟩ =>
      single ⟨old, toList_eq_singleton (fun r => (same r).symm) alone⟩
    obtain ⟨set, members, builtLeft⟩ := mergedLeft.exists_builtFor
    obtain ⟨set', members', builtRight⟩ := mergedRight.exists_builtFor
    exact .inr ⟨set, set', fun r => by rw [members', same, members], builtLeft, builtRight⟩

/-! ## What is built -/

/-- Types that are built for the same contributors to a kind. -/
theorem Regroups.sameForm_of_builds {refs refs' : OrderedSet Ref} (same : ∀ r, r ∈ refs' ↔ r ∈ refs)
    {kind : Kind} {s t : Ty} (left : plan.Builds trace refs kind s)
    (right : other.Builds trace' refs' kind t) :
    s.SameForm (plan.Counterparts other trace trace') t := by
  cases left with
  | primitive p =>
    rw [right.eq_primitive]
    exact .primitive
  | enum =>
    have type : t = .enum (other.source.casesOf refs') := right.inv
    rw [type, regroups.source]
    refine .enum fun name => ?_
    simp only [Graph.mem_casesOf, same]
  | array left =>
    obtain ⟨items, rfl, stands⟩ := right.inv
    refine .array (regroups.counterparts_of_mergeOf plural plural' (fun r => ?_) left stands)
    simp only [regroups.source, Graph.mem_itemsOf, same]
  | map left =>
    obtain ⟨values, rfl, stands⟩ := right.inv
    refine .map (regroups.counterparts_of_mergeOf plural plural' (fun r => ?_) left stands)
    simp only [regroups.source, Graph.mem_valuesOf, same]
  | record left =>
    obtain ⟨properties, rfl, related⟩ := right.exists_properties
    have records : ∀ r, r ∈ other.source.recordsOf refs' ↔ r ∈ plan.source.recordsOf refs := by
      intro r
      simp only [regroups.source, Graph.mem_recordsOf, same]
    refine .record ?_ (fun name => ?_) fun name p q foundP foundQ => ?_
    · rw [Bool.eq_iff_iff, List.any_eq_true, List.any_eq_true]
      simp only [records]
    · rw [keys_merged left, keys_merged related]
      simp only [mem_firsts, List.mem_flatMap, records]
    · obtain ⟨optionalP, standsP⟩ := exists_mergeProperty left foundP
      obtain ⟨optionalQ, standsQ⟩ := exists_mergeProperty related foundQ
      refine ⟨?_, regroups.counterparts_of_mergeOf plural plural' (fun r => ?_) standsP standsQ⟩
      · have required : q.optional = false ↔ p.optional = false := by
          rw [optionalP, optionalQ]
          simp only [optional_mergeProperty_eq_false_iff, records]
        rw [Bool.eq_iff_iff, ← not_iff_not, Bool.not_eq_true, Bool.not_eq_true, required]
      · simp only [mem_types_mergeProperty, records]

/-- Nodes that are built for the same types. -/
theorem Regroups.sameForm_of_realises {types others : OrderedSet Ref}
    (same : ∀ r, r ∈ others ↔ r ∈ types) {raw raw' : Node}
    (left : plan.Realises conflate trace (.merge types) raw)
    (right : other.Realises conflate trace' (.merge others) raw') :
    raw.type.SameForm (plan.Counterparts other trace trace') raw'.type := by
  cases left with
  | part single builds =>
    obtain ⟨refs, single', members⟩ := Graph.contributors_singleton_congr (fun r => (same r).symm) single
    rw [← regroups.source] at single'
    exact regroups.sameForm_of_builds plural plural' members builds (right.builds_of_part single')
  | union several left =>
    have kinds : (plan.source.contributors conflate others.toList).map Prod.fst =
        (plan.source.contributors conflate types.toList).map Prod.fst :=
      Graph.kinds_contributors_congr same
    replace kinds := congrArg List.length kinds
    rw [List.length_map, List.length_map, ← regroups.source] at kinds
    cases right with
    | part single _ =>
      rw [single, regroups.source] at kinds
      exact absurd kinds.symm several
    | union _ right =>
      rw [regroups.source] at right
      -- a kind has the same contributors, listed in two orders
      refine .union (fun n listed => ?_) fun m listed => ?_
      · obtain ⟨⟨kind, refs⟩, contributes, stands⟩ :=
          exists_of_mem_right left (OrderedSet.mem_ofList.1 listed)
        have part := (plan.source.mem_contributors conflate).1 contributes
        obtain ⟨refs', part', members⟩ := part.congr fun r => (same r).symm
        obtain ⟨m, there, stands'⟩ :=
          exists_of_mem_left right ((plan.source.mem_contributors conflate).2 part')
        exact ⟨m, OrderedSet.mem_ofList.2 there,
          regroups.counterparts_of_memberOf plural plural' members stands stands'⟩
      · obtain ⟨⟨kind, refs'⟩, contributes, stands'⟩ :=
          exists_of_mem_right right (OrderedSet.mem_ofList.1 listed)
        have part' := (plan.source.mem_contributors conflate).1 contributes
        obtain ⟨refs, part, members⟩ := part'.congr same
        obtain ⟨n, there, stands⟩ :=
          exists_of_mem_left left ((plan.source.mem_contributors conflate).2 part)
        exact ⟨n, OrderedSet.mem_ofList.2 there,
          regroups.counterparts_of_memberOf plural plural' (fun r => (members r).symm) stands stands'⟩

variable {target : Target} {h k : Graph} (replaces : plan.Replaces conflate target h trace)
  (replaces' : other.Replaces conflate target k trace')

include replaces replaces'

/-- Counterparts unfold to one tree but for the order. -/
theorem Regroups.sameForm {n m : Ref} (pair : plan.Counterparts other trace trace' n m) :
    h.SameForm n k m := by
  refine ⟨_, pair, fun x y pair => ?_⟩
  obtain ⟨raw, raw', found, found', same⟩ : ∃ raw raw', h.node? x = some (target.normalize raw) ∧
      k.node? y = some (target.normalize raw') ∧
      raw.type.SameForm (plan.Counterparts other trace trace') raw'.type := by
    rcases pair with ⟨old, left, right⟩ | ⟨types, others, same, left, right⟩
    · obtain ⟨node, found⟩ := replaces.exists_node left
      obtain ⟨node', found'⟩ := replaces'.exists_node right
      obtain ⟨raw, realises, rfl⟩ := replaces.explains left found
      obtain ⟨raw', realises', rfl⟩ := replaces'.explains right found'
      refine ⟨raw, raw', found, found', ?_⟩
      cases realises with
      | copy original children =>
        cases realises' with
        | copy again children' =>
          rw [regroups.source, original] at again
          cases again
          exact Ty.sameForm_withChildren children children' fun _ _ _ => regroups.counterparts_of_copyOf
    · obtain ⟨raw, found, realises⟩ := replaces.merges_of_builtFor left
      obtain ⟨raw', found', realises'⟩ := replaces'.merges_of_builtFor right
      exact ⟨raw, raw', found, found',
        regroups.sameForm_of_realises plural plural' same realises realises'⟩
  refine ⟨_, _, ?_, ?_, same.normalize target⟩
  · rw [Graph.type?, found]
    rfl
  · rw [Graph.type?, found']
    rfl

end Regrouped

end Plan

/-! ## Replacing groups by unification -/

/-- The order of disjoint groups of records, and of the members of each, does not show in what they are
unified to: in both orders they are replaced, the names are those of the source, in their order, and each
of them leads to the same tree, but for the order of properties, cases and members. -/
theorem Graph.replaceGroups_order (source : Graph) (label label' : String) (target : Target)
    (unifier : Unifier) {groups others : List (List Ref)} (nonempty : ∀ group ∈ groups, group ≠ [])
    (records : ∀ group ∈ groups, ∀ r ∈ group, source.kind? r = some .record)
    (disjoint : groups.flatten.Nodup) (same : SameGroups groups others) :
    ∃ h k, (source.replaceGroups label target groups unifier.replacement).result = .ok h ∧
      (source.replaceGroups label' target others unifier.replacement).result = .ok k ∧
      h.tops.keys = source.tops.keys ∧ k.tops.keys = source.tops.keys ∧
      List.Forall₂ (fun x y => x.1 = y.1 ∧ h.SameForm x.2 k y.2) h.tops.entries k.tops.entries := by
  have records' : ∀ group ∈ others, ∀ r ∈ group, source.kind? r = some .record := by
    intro group listed r member
    obtain ⟨original, there, members⟩ := same.exists_left listed
    exact records original there r ((members r).1 member)
  have nonempty' : ∀ group ∈ others, group ≠ [] := by
    intro group listed
    obtain ⟨original, there, members⟩ := same.exists_left listed
    obtain ⟨r, member⟩ := List.exists_mem_of_ne_nil _ (nonempty original there)
    exact List.ne_nil_of_mem ((members r).2 member)
  have inside : ∀ {r}, source.kind? r = some .record → r < source.size := by
    intro r isRecord
    obtain ⟨_, found, _⟩ := source.exists_type?_of_kind? isRecord
    exact source.lt_of_type? found
  let plan : Plan := ⟨source, groups, nonempty, fun group listed r member =>
    inside (records group listed r member), disjoint⟩
  let other : Plan := ⟨source, others, nonempty', fun group listed r member =>
    inside (records' group listed r member), same.flatten_perm.nodup_iff.1 disjoint⟩
  have regroups : plan.Regroups other := ⟨rfl, fun _ => same.exists_right, fun _ => same.exists_left⟩
  have fills : unifier.replacement.Fills unifier.conflate := fun sound listed awaits =>
    unifier.advances_replacement sound listed awaits
  obtain ⟨h, trace, result, replaces, plural⟩ := @Graph.replaceGroups_succeeds source label target
    unifier.conflate _ fills plan (Plan.ofGroups?_eq_ok plan.nonempty plan.members_lt plan.disjoint) records
  obtain ⟨k, trace', result', replaces', plural'⟩ := @Graph.replaceGroups_succeeds source label' target
    unifier.conflate _ fills other (Plan.ofGroups?_eq_ok other.nonempty other.members_lt other.disjoint)
    records'
  refine ⟨h, k, result, result', replaces.keys_tops, replaces'.keys_tops, ?_⟩
  refine forall₂_meet replaces.tops replaces'.tops fun top x y left right => ⟨left.1.trans right.1.symm, ?_⟩
  exact regroups.sameForm plural plural' replaces replaces'
    (regroups.counterparts_of_copyOf left.2 right.2)

/-- Two groups of the three records in a chain, in one order and the other. -/
theorem sameGroups_chained : SameGroups [[1, 2], [3]] [[3], [2, 1]] :=
  ⟨[[3], [1, 2]], .swap .., .cons (.refl _) (.cons (.swap ..) .nil)⟩

/-- The first record may be listed after the second, and the third before both. -/
theorem Graph.chained_in_both_orders :
    (∀ group ∈ [[1, 2], [3]], group ≠ []) ∧
      (∀ group ∈ [[1, 2], [3]], ∀ r ∈ group, chained.kind? r = some .record) ∧
      [[1, 2], [3]].flatten.Nodup ∧ SameGroups [[1, 2], [3]] [[3], [2, 1]] ∧
      ∃ h k, (chained.replaceGroups "one" .standard [[1, 2], [3]]
          (Unifier.replacement ⟨.standard, true⟩)).result = .ok h ∧
        (chained.replaceGroups "other" .standard [[3], [2, 1]]
          (Unifier.replacement ⟨.standard, true⟩)).result = .ok k ∧
        h.tops.keys = chained.tops.keys ∧ k.tops.keys = chained.tops.keys ∧
        List.Forall₂ (fun x y => x.1 = y.1 ∧ h.SameForm x.2 k y.2) h.tops.entries k.tops.entries := by
  have nonempty : ∀ group ∈ [[1, 2], [3]], group ≠ [] := by decide
  have records : ∀ group ∈ [[1, 2], [3]], ∀ r ∈ group, chained.kind? r = some .record := by decide
  have disjoint : [[1, 2], [3]].flatten.Nodup := by decide
  exact ⟨nonempty, records, disjoint, sameGroups_chained, replaceGroups_order chained "one" "other" .standard
    ⟨.standard, true⟩ nonempty records disjoint sameGroups_chained⟩

end SchemaGraph
