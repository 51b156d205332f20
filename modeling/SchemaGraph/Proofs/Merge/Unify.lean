import SchemaGraph.Proofs.Draft.Copy
import SchemaGraph.Proofs.Merge.Constituents
/-!
# Proofs.Merge.Unify -- unification ends, and merges what it is given

Unifying a set of types that are reached succeeds, and leads to a reference that stands for the set
(`Drafting.advances_unify`); unifying the members of a group fills the group's reference
(`Drafting.advances_unify_group`). The induction is on the bound on nested unifications. Below it
stands one lemma for each function of the recursion, with the unification of smaller sets as an
argument that is assumed to do its part (`Drafting.Unifies`). The types with contributors to several
kinds become a union, and the lemmas also say which members it was given (`Drafting.FilledUniting`).

A set is remembered before its constituents are unified, so what may still be merged shrinks with
every level (`Stage.unmerged_opened`), and the number of sets of types is bound enough.
-/

namespace SchemaGraph

set_option autoImplicit false

namespace Plan

variable {plan : Plan} {conflate : Bool}

theorem Reached.unfolds {r leaf : Ref} (reached : plan.Reached r)
    (path : plan.source.Unfolds r leaf) : plan.Reached leaf := by
  induction path with
  | refl => exact reached
  | tail _ last ih => exact .child ih (plan.source.children_of_mem_members last)

/-- The contributors of a part are reached if the types that were merged are. -/
theorem reached_of_part {types : List Ref} {kind : Kind} {refs : OrderedSet Ref}
    (reached : ∀ r ∈ types, plan.Reached r) (part : plan.source.Part conflate types kind refs) :
    ∀ r ∈ refs, plan.Reached r := by
  intro r member
  obtain ⟨_, _, t, listed, path⟩ := plan.source.mem_leaves_iff.1 (part.leaf member)
  exact (reached t listed).unfolds path

theorem reached_itemsOf {refs : OrderedSet Ref} (reached : ∀ r ∈ refs, plan.Reached r) :
    ∀ r ∈ plan.source.itemsOf refs, plan.Reached r := by
  intro items member
  obtain ⟨r, listed, child⟩ := plan.source.mem_children_of_mem_itemsOf member
  exact .child (reached r listed) child

theorem reached_valuesOf {refs : OrderedSet Ref} (reached : ∀ r ∈ refs, plan.Reached r) :
    ∀ r ∈ plan.source.valuesOf refs, plan.Reached r := by
  intro value member
  obtain ⟨r, listed, child⟩ := plan.source.mem_children_of_mem_valuesOf member
  exact .child (reached r listed) child

theorem reached_types {refs : OrderedSet Ref} (reached : ∀ r ∈ refs, plan.Reached r)
    {merged : MergedProperty} (listed : merged ∈ mergeProperties (plan.source.recordsOf refs)) :
    ∀ r ∈ merged.types, plan.Reached r := by
  intro t member
  obtain ⟨record, there, p, found, rfl⟩ := exists_property_of_mem_types listed member
  obtain ⟨r, inside, type⟩ := plan.source.mem_recordsOf.1 there
  refine .child (reached r inside) ?_
  rw [plan.source.children_of_type? type]
  have entry := OrderedMap.get?_eq_some_iff.1 found
  exact List.mem_map.2 ⟨p, List.mem_map.2 ⟨_, entry, rfl⟩, rfl⟩

end Plan

namespace Drafting

variable {plan : Plan} {conflate : Bool} {stage : Stage}

/-- The function unifies the sets of types that are reached, from stages in which fewer sets than
the bound are left to merge. -/
def Unifies (plan : Plan) (conflate : Bool) (bound : Nat) (inner : OrderedSet Ref → Drafting Ref) :
    Prop :=
  ∀ (stage : Stage) (types : OrderedSet Ref), stage.Sound plan conflate → types.isEmpty = false →
    (∀ r ∈ types, plan.Reached r) → stage.draft.unmerged plan.source.size < bound →
    Advances plan conflate none (inner types) stage
      fun new after => plan.MergeOf after.trace types new

variable {bound : Nat} {inner : OrderedSet Ref → Drafting Ref}

/-! ## Building a type of one kind -/

theorem advances_buildRecord (unifies : Unifies plan conflate bound inner)
    (sound : stage.Sound plan conflate) {refs : OrderedSet Ref}
    (reached : ∀ r ∈ refs, plan.Reached r)
    (enough : stage.draft.unmerged plan.source.size < bound) :
    Advances plan conflate none (buildRecord inner (plan.source.recordsOf refs)) stage
      fun record after => plan.Builds after.trace refs .record (.record record) := by
  have each : Advances plan conflate none
      ((mergeProperties (plan.source.recordsOf refs)).mapM (buildProperty inner)) stage
      fun entries after => List.Forall₂ (plan.PropertyOf after.trace)
        (mergeProperties (plan.source.recordsOf refs)) entries := by
    refine .mapM plan.PropertyOf sound ?_ ?_
    · intro trace wider grows merged entry same
      exact ⟨same.name, same.optional, same.type.mono grows⟩
    · intro merged listed after afterSound follows
      have fewer := follows.unmerged_le plan.source.size
      refine .bind (unifies after merged.types afterSound
        (types_nonempty_of_mem_mergeProperties listed) (plan.reached_types reached listed)
        (by omega)) ?_
      intro new final finalSound _ stands
      exact .done finalSound ⟨rfl, rfl, stands⟩
  refine .bind each ?_
  intro entries after afterSound _ related
  refine .done afterSound (.record ?_)
  have names : entries.map Prod.fst =
      (mergeProperties (plan.source.recordsOf refs)).map MergedProperty.name := by
    have same : List.Forall₂ (fun name merged => name = merged) (entries.map Prod.fst)
        ((mergeProperties (plan.source.recordsOf refs)).map MergedProperty.name) := by
      rw [List.forall₂_map_left_iff, List.forall₂_map_right_iff]
      exact related.flip.imp fun _ _ here => here.name
    exact List.forall₂_eq_eq_eq ▸ same
  have distinct : (entries.map Prod.fst).Nodup := by
    rw [names]
    exact nodup_names_mergeProperties _
  rw [OrderedMap.entries_ofList distinct]
  exact related

/-- The type of one kind fills a reference whose origin it may stand for. -/
theorem advances_buildKind (unifies : Unifies plan conflate bound inner)
    (sound : stage.Sound plan conflate) {types : List Ref} {kind : Kind} {refs : OrderedSet Ref}
    (part : plan.source.Part conflate types kind refs) (reached : ∀ r ∈ refs, plan.Reached r)
    (enough : stage.draft.unmerged plan.source.size < bound) {slot : Ref} {origin : Origin}
    (awaits : stage.Awaits slot origin) {attributes : Bag}
    (makes : ∀ {trace : Trace} {type : Ty}, plan.Builds trace refs kind type →
      plan.Realises conflate trace origin ⟨type, attributes⟩) :
    Advances plan conflate (some slot) (buildKind plan inner kind refs attributes slot) stage
      fun r after => r = slot ∧ ¬ after.Pending slot := by
  have primitive : ∀ p : Primitive, kind = p.kind →
      Advances plan conflate (some slot) (addPrimitive p.kind attributes (some slot)) stage
        fun r after => r = slot ∧ ¬ after.Pending slot := by
    rintro p rfl
    exact .fillPrimitive sound awaits (makes (.primitive p))
  cases kind with
  | union => exact absurd rfl part.kind_ne_union
  | enum => exact .fill sound awaits (makes .enum)
  | array =>
    refine .bind (unifies stage _ sound part.itemsOf_nonempty (plan.reached_itemsOf reached) enough) ?_
    intro items after afterSound follows stands
    exact .fill afterSound (awaits.later follows) (makes (.array stands))
  | map =>
    refine .bind
      (unifies stage _ sound part.valuesOf_nonempty (plan.reached_valuesOf reached) enough) ?_
    intro values after afterSound follows stands
    exact .fill afterSound (awaits.later follows) (makes (.map stands))
  | record =>
    refine .bind (advances_buildRecord unifies sound reached enough) ?_
    intro record after afterSound follows builds
    exact .fill afterSound (awaits.later follows) (makes builds)
  | any => exact primitive .any rfl
  | null => exact primitive .null rfl
  | bool => exact primitive .bool rfl
  | integer => exact primitive .integer rfl
  | double => exact primitive .double rfl
  | string => exact primitive .string rfl

/-! ## Building a union -/

/-- The reference is filled; it holds a union over what was made for the parts of the types, if they have
several. -/
def FilledUniting (plan : Plan) (conflate : Bool) (slot : Ref) (origin : Origin) (types : OrderedSet Ref)
    (r : Ref) (after : Stage) : Prop :=
  r = slot ∧ ¬ after.Pending slot ∧
    ∀ node, after.node? slot = some node → plan.Unites conflate origin after.trace types node.type

/-- A single contributor is found to stand for itself unless the union replaces it. -/
theorem advances_alone? {refs : OrderedSet Ref} {slot : Ref} {origin : Origin}
    (sound : stage.Sound plan conflate) (traced : stage.trace slot origin) :
    Advances plan conflate none (alone? plan refs slot) stage fun found _ =>
      match found with
      | some single => refs.toList = [single] ∧ ¬ plan.Belongs single origin
      | none => ∀ single, refs.toList = [single] → plan.Belongs single origin := by
  unfold alone?
  split
  · rename_i single listed
    refine .bind (advances_lookupGroup sound) ?_
    intro group after afterSound follows common
    refine .done afterSound ?_
    rw [listed, plan.commonGroup?_singleton] at common
    have still := follows.grows _ _ traced
    by_cases own : group = some slot
    · rw [if_pos own]
      split at common
      · rename_i index ofGroup
        obtain ⟨n, found, here⟩ := common
        rw [own] at found
        cases found
        have same := afterSound.eq_of_not_copy (Origin.not_isCopy_group index) here still
        intro other alone
        cases listed.symm.trans alone
        exact ⟨index, ofGroup, same⟩
      · rw [own] at common
        cases common
    · rw [if_neg own]
      refine ⟨listed, ?_⟩
      rintro ⟨index, ofGroup, rfl⟩
      simp only [ofGroup] at common
      obtain ⟨n, found, here⟩ := common
      rw [found] at own
      exact own (congrArg some (afterSound.group_unique here still))
  · rename_i several
    exact .done sound fun single alone => absurd alone (several single)

/-- The merge of the contributors to one kind may stand for that part alone. -/
theorem realises_part {types : List Ref} {kind : Kind} {refs : OrderedSet Ref}
    (part : plan.source.Part conflate types kind refs) {trace : Trace} {type : Ty} {attributes : Bag}
    (builds : plan.Builds trace refs kind type) :
    plan.Realises conflate trace (.merge refs) ⟨type, attributes⟩ :=
  .part part.contributors_eq builds

theorem advances_buildMember (registry : Registry) (unifies : Unifies plan conflate bound inner)
    (sound : stage.Sound plan conflate) {types : List Ref} (reached : ∀ r ∈ types, plan.Reached r)
    {part : Kind × OrderedSet Ref} (listed : part ∈ plan.source.contributors conflate types)
    (enough : stage.draft.unmerged plan.source.size < bound) {slot : Ref} {origin : Origin}
    (traced : stage.trace slot origin) (own : plan.OfRecords → ∃ types, origin = .merge types) :
    Advances plan conflate none (buildMember plan registry inner slot part) stage
      fun new after => plan.MemberFor origin after.trace part new := by
  obtain ⟨kind, refs⟩ := part
  have isPart := (plan.source.mem_contributors conflate).1 listed
  have inside := plan.reached_of_part reached isPart
  refine .bind (advances_alone? sound traced) ?_
  intro found first firstSound follows alone
  cases found with
  | some single =>
    obtain ⟨only, apart⟩ := alone
    have member := (OrderedSet.mem_iff_of_toList_eq only).2 rfl
    refine Advances.mono (advances_copy firstSound (inside single member)) ?_
    intro new after _ _ stands
    exact .inl ⟨single, only, apart, stands⟩
  | none =>
    have plural : plan.Plural (.merge refs) := by
      intro records
      obtain ⟨r, member⟩ := isPart.exists_mem
      refine OrderedSet.one_lt_size member fun single only => ?_
      obtain ⟨index, _, group⟩ := alone single only
      obtain ⟨types, merge⟩ := own records
      cases group.symm.trans merge
    refine .bind (advances_lookupUnion firstSound) ?_
    rintro known second secondSound _ ⟨rfl, rfl⟩
    cases memory : second.draft.unified.get? (unionKey refs) with
    | some r =>
      obtain ⟨others, same, merged⟩ := secondSound.merged memory
      exact .done secondSound (.inr ⟨alone, merged.of_key same⟩)
    | none =>
      -- the member is remembered first, so its constituents find less to merge
      have known : plan.Known (.merge refs) := inside
      refine .open (fun _ => rfl) secondSound known plural memory (fun _ => nofun) fun openedSound => ?_
      have fewer := follows.unmerged_le plan.source.size
      have shrinks : (second.opened (.merge refs)).draft.unmerged plan.source.size <
          second.draft.unmerged plan.source.size :=
        Stage.unmerged_opened (fun r member => (inside r member).lt) memory
      refine .bind (advances_combineAttributes registry refs.toList openedSound) ?_
      intro attributes third thirdSound later _
      have left := later.unmerged_le plan.source.size
      have awaits := Stage.awaits_opened.later later
      refine Advances.mono (advances_buildKind unifies thirdSound isPart inside (by omega) awaits
        (realises_part isPart)) ?_
      rintro r final _ last ⟨rfl, filled⟩
      exact ⟨filled, .inr ⟨alone, .inl ⟨refs, rfl, last.grows _ _ awaits.traced⟩⟩⟩

/-- Several parts become a union. -/
theorem buildParts_of_several {registry : Registry} {attributes : Bag} {slot : Ref}
    {parts : List (Kind × OrderedSet Ref)} (several : parts.length ≠ 1) :
    buildParts plan registry inner attributes slot parts =
      parts.mapM (buildMember plan registry inner slot) >>= fun members =>
        add ⟨.union (.ofList members), attributes⟩ (some slot) := by
  unfold buildParts
  split
  · exact absurd rfl several
  · rfl

/-- The type for the contributors to all kinds fills a reference whose origin the merge may stand for, with
a union over what was made for the parts if there are several. -/
theorem advances_buildParts (registry : Registry) (unifies : Unifies plan conflate bound inner)
    (sound : stage.Sound plan conflate) {types : OrderedSet Ref}
    (reached : ∀ r ∈ types, plan.Reached r)
    (enough : stage.draft.unmerged plan.source.size < bound) {slot : Ref} {origin : Origin}
    (awaits : stage.Awaits slot origin)
    (makes : ∀ {trace : Trace} {node : Node}, plan.Realises conflate trace (.merge types) node →
      plan.Realises conflate trace origin node)
    (own : plan.OfRecords → (plan.source.contributors conflate types.toList).length ≠ 1 →
      ∃ others, origin = .merge others) (attributes : Bag) :
    Advances plan conflate (some slot) (buildParts plan registry inner attributes slot
      (plan.source.contributors conflate types.toList)) stage
      (FilledUniting plan conflate slot origin types) := by
  by_cases one : (plan.source.contributors conflate types.toList).length = 1
  · obtain ⟨⟨kind, refs⟩, listed⟩ := List.length_eq_one_iff.1 one
    have isPart := Graph.Part.of_contributors_eq listed
    rw [listed]
    refine Advances.mono (advances_buildKind unifies sound isPart
      (plan.reached_of_part reached isPart) enough awaits
      fun builds => makes (.part listed builds)) ?_
    exact fun r after _ _ filled => ⟨filled.1, filled.2, fun _ _ several => absurd one several⟩
  · rw [buildParts_of_several one]
    refine .bind (.mapM (plan.MemberFor origin) sound (fun grows _ _ => .mono grows) ?_) ?_
    · intro part listed after afterSound follows
      have fewer := follows.unmerged_le plan.source.size
      exact advances_buildMember registry unifies afterSound reached listed (by omega)
        (follows.grows _ _ awaits.traced) fun records => own records one
    · intro members after afterSound follows made
      have stand := made.imp fun _ _ => Plan.MemberFor.memberOf
      refine Advances.mono
        (.fill_node afterSound (awaits.later follows) (makes (.union one stand))) ?_
      rintro r final _ _ ⟨rfl, trace, found⟩
      refine ⟨rfl, Stage.not_pending_of_node? found, fun node here _ => ?_⟩
      cases found.symm.trans here
      exact ⟨members, Target.type_normalize_of_kind _ _ nofun, trace ▸ made⟩

/-! ## Unifying -/

theorem advances_known? {types : OrderedSet Ref} (sound : stage.Sound plan conflate)
    (reached : ∀ r ∈ types, plan.Reached r) :
    Advances plan conflate none (known? plan types) stage fun found after =>
      (∀ new, found = some new → plan.MergeOf after.trace types new) ∧
        (found = none → plan.commonGroup? types.toList = none ∧
          after.draft.unified.get? (unionKey types) = none ∧
          ∀ single, types.toList ≠ [single]) := by
  refine .bind (advances_lookupGroup sound) ?_
  intro found first firstSound _ group
  cases common : plan.commonGroup? types.toList with
  | some index =>
    rw [common] at group
    obtain ⟨n, rfl, traced⟩ := group
    refine .done firstSound ⟨?_, fun none => by cases none⟩
    intro new same
    cases same
    simp only [Plan.MergeOf, common]
    exact traced
  | none =>
    rw [common] at group
    subst group
    refine .bind (advances_lookupUnion firstSound) ?_
    rintro known second secondSound _ ⟨rfl, rfl⟩
    cases memory : second.draft.unified.get? (unionKey types) with
    | some r =>
      refine .done secondSound ⟨?_, fun none => by cases none⟩
      intro new same
      cases same
      obtain ⟨others, sameKey, merged⟩ := secondSound.merged memory
      simp only [Plan.MergeOf, common]
      exact .inl (merged.of_key sameKey)
    | none =>
      simp only
      split
      · rename_i single listed
        have member := (OrderedSet.mem_iff_of_toList_eq listed).2 rfl
        refine .map (Advances.mono (advances_copy secondSound (reached single member)) ?_)
        intro new after _ _ stands
        refine ⟨?_, fun none => by cases none⟩
        intro other same
        cases same
        have noGroup : plan.groupOf? single = none := by
          rw [← plan.commonGroup?_singleton, ← listed]
          exact common
        simp only [Plan.CopyOf, noGroup] at stands
        simp only [Plan.MergeOf, common]
        exact .inr ⟨single, listed, stands⟩
      · rename_i several
        refine .done secondSound ⟨?_, fun _ => ⟨trivial, memory, several⟩⟩
        intro new same
        cases same

theorem advances_checkInside {types : OrderedSet Ref} (sound : stage.Sound plan conflate)
    (reached : ∀ r ∈ types, plan.Reached r) :
    Advances plan conflate none (checkInside plan types) stage fun _ after => after = stage := by
  have inside : types.toList.find? (fun r => !plan.source.has r) = none := by
    rw [List.find?_eq_none]
    intro r member
    have lt := (reached r member).lt
    simp [Graph.has, lt]
  unfold checkInside
  rw [inside]
  exact .done sound rfl

variable {unifier : Unifier}

/-- What is left of building the type for a set of types once the set is remembered. -/
theorem advances_unifyRest (unifies : Unifies plan unifier.conflate bound inner)
    (sound : stage.Sound plan unifier.conflate) {types : OrderedSet Ref}
    (reached : ∀ r ∈ types, plan.Reached r)
    (enough : stage.draft.unmerged plan.source.size < bound) {slot : Ref} {origin : Origin}
    (awaits : stage.Awaits slot origin)
    (makes : ∀ {trace : Trace} {node : Node},
      plan.Realises unifier.conflate trace (.merge types) node →
      plan.Realises unifier.conflate trace origin node)
    (own : plan.OfRecords → (plan.source.contributors unifier.conflate types.toList).length ≠ 1 →
      ∃ others, origin = .merge others) (attributes : Bag) :
    Advances plan unifier.conflate (some slot)
      (checkInside plan types >>= fun _ =>
        report (.unifying types.size slot
          (plan.source.contributors unifier.conflate types.toList).length) >>= fun _ =>
        buildParts plan unifier.registry inner attributes slot
          (plan.source.contributors unifier.conflate types.toList)) stage
      (FilledUniting plan unifier.conflate slot origin types) := by
  refine .bind (advances_checkInside sound reached) ?_
  rintro _ first firstSound _ rfl
  refine .bind (advances_report _ firstSound) ?_
  intro _ second secondSound follows _
  have fewer := follows.unmerged_le plan.source.size
  exact advances_buildParts unifier.registry unifies secondSound reached (by omega) (awaits.later follows)
    makes own attributes

/-- With bound enough, unification does its part. -/
theorem unifies_unifyWithin (depth : Nat) : Unifies plan unifier.conflate depth fun types =>
    combineAttributes plan unifier.registry types.toList >>= fun attributes =>
      unifyWithin plan unifier depth types attributes none := by
  induction depth with
  | zero =>
    intro stage types _ _ _ enough
    cases enough
  | succ depth ih =>
    intro stage types sound nonempty reached enough
    refine .bind (advances_combineAttributes unifier.registry types.toList sound) ?_
    intro attributes first firstSound follows _
    rw [unifyWithin, nonempty]
    refine .bind (advances_known? firstSound reached) ?_
    rintro found second secondSound later ⟨stands, fresh⟩
    cases found with
    | some r => exact .done secondSound (stands r rfl)
    | none =>
      obtain ⟨common, memory, several⟩ := fresh rfl
      have known : plan.Known (.merge types) := reached
      have plural : plan.Plural (.merge types) := by
        obtain ⟨r, member⟩ := List.exists_mem_of_ne_nil _ (List.isEmpty_eq_false_iff.1 nonempty)
        exact fun _ => OrderedSet.one_lt_size member several
      unfold unifyInto
      refine .open (fun _ => rfl) secondSound known plural memory (fun _ => nofun) fun openedSound => ?_
      have fewer := (follows.trans later).unmerged_le plan.source.size
      have shrinks : (second.opened (.merge types)).draft.unmerged plan.source.size <
          second.draft.unmerged plan.source.size :=
        Stage.unmerged_opened (fun r member => (reached r member).lt) memory
      refine Advances.mono (advances_unifyRest ih openedSound reached (by omega)
        Stage.awaits_opened id (fun _ _ => ⟨types, rfl⟩) attributes) ?_
      rintro r final _ last ⟨rfl, filled, _⟩
      refine ⟨filled, ?_⟩
      have traced := last.grows _ _ Stage.trace_opened
      simp only [Plan.MergeOf, common]
      exact .inl (.inl ⟨types, rfl, traced⟩)

/-- Remembering a set leaves fewer sets than there are. -/
theorem unmerged_registered_lt {types : OrderedSet Ref} {n : Ref} {size : Nat}
    (inside : ∀ r ∈ types, r < size) :
    (stage.registered types n).draft.unmerged size < Nat.pow 2 size := by
  refine Draft.unmerged_lt _ inside ?_
  rw [Stage.unified_registered, if_pos rfl]
  rfl

theorem isEmpty_ofList_of_ne_nil {xs : List Ref} (nonempty : xs ≠ []) :
    (OrderedSet.ofList xs).isEmpty = false := by
  obtain ⟨x, member⟩ := List.exists_mem_of_ne_nil xs nonempty
  exact OrderedSet.isEmpty_eq_false_of_mem (OrderedSet.mem_ofList.2 member)

/-- Unifying a set of types with several parts in a slot that is given makes a union. -/
theorem unify_of_several {types : OrderedSet Ref} {parts : List (Kind × OrderedSet Ref)}
    (nonempty : types.isEmpty = false)
    (contributors : plan.source.contributors unifier.conflate types.toList = parts)
    (several : parts.length ≠ 1) (attributes : Bag) (slot : Ref) :
    unify plan unifier types attributes (some slot) =
      ExceptT.adapt Failure.merged (
        registerUnion types slot >>= fun _ =>
        checkInside plan types >>= fun _ =>
        report (.unifying types.size slot parts.length) >>= fun _ =>
        parts.mapM (buildMember plan unifier.registry (fun types =>
          combineAttributes plan unifier.registry types.toList >>= fun attributes =>
            unifyWithin plan unifier (Nat.pow 2 plan.source.size) types attributes none) slot)
          >>= fun members => add ⟨.union (.ofList members), attributes⟩ (some slot)) := by
  rw [unify, unifyDepth, unifyWithin, nonempty]
  simp only [unifyInto, contributors, buildParts_of_several several]
  rfl

/-- Unifying the members of a group fills the group's reference, with a union over what was made for the parts
if there are several. -/
theorem advances_unify_group {index : Nat} {members : List Ref}
    (sound : stage.Sound plan unifier.conflate) (listed : plan.groups[index]? = some members)
    {slot : Ref} (awaits : stage.Awaits slot (.group index)) (attributes : Bag) :
    Advances plan unifier.conflate (some slot)
      (unify plan unifier (.ofList members) attributes (some slot)) stage
      (FilledUniting plan unifier.conflate slot (.group index) (.ofList members)) := by
  have group := List.mem_of_getElem? listed
  have reached : ∀ r ∈ OrderedSet.ofList members, plan.Reached r := fun r member =>
    .member group (OrderedSet.mem_ofList.1 member)
  have merged : plan.Merged stage.trace (.ofList members) slot :=
    .inr ⟨index, members, listed, rfl, awaits.traced⟩
  have one : plan.OfRecords → (plan.source.contributors unifier.conflate
      (OrderedSet.ofList members).toList).length = 1 := by
    intro records
    obtain ⟨refs, single⟩ : ∃ refs, plan.source.contributors unifier.conflate
        (OrderedSet.ofList members).toList = [(.record, refs)] := records.contributors_eq listed
    rw [single]
    rfl
  have filled : Advances plan unifier.conflate (some slot)
      (unifyWithin plan unifier (unifyDepth plan) (.ofList members) attributes (some slot)) stage
      (FilledUniting plan unifier.conflate slot (.group index) (.ofList members)) := by
    rw [unifyDepth, unifyWithin, isEmpty_ofList_of_ne_nil (plan.nonempty members group)]
    refine Advances.bind (advances_registerUnion sound merged) ?_
    rintro _ after afterSound follows rfl
    exact advances_unifyRest (unifies_unifyWithin _) afterSound reached
      (unmerged_registered_lt fun r member => (reached r member).lt) (awaits.later follows)
      (fun realises => .group listed realises) (fun records count => absurd (one records) count)
      attributes
  exact Succeeds.adapt filled

end Drafting

/-- Replacing a group by the unification of its members fills the group's reference, with a union over what
was made for the parts if there are several. -/
theorem Unifier.advances_uniting {plan : Plan} {unifier : Unifier} {stage : Stage} {index : Nat}
    {members : List Ref} (sound : stage.Sound plan unifier.conflate)
    (listed : plan.groups[index]? = some members) {slot : Ref}
    (awaits : stage.Awaits slot (.group index)) :
    Drafting.Advances plan unifier.conflate (some slot) (unifier.replacement plan members slot) stage
      (Drafting.FilledUniting plan unifier.conflate slot (.group index) (.ofList members)) := by
  refine .bind (Drafting.advances_combineAttributes unifier.registry members sound) ?_
  intro attributes after afterSound follows _
  exact Drafting.advances_unify_group afterSound listed (awaits.later follows) attributes

/-- Replacing a group by the unification of its members fills the group's reference. -/
theorem Unifier.advances_replacement {plan : Plan} {unifier : Unifier} {stage : Stage} {index : Nat}
    {members : List Ref} (sound : stage.Sound plan unifier.conflate)
    (listed : plan.groups[index]? = some members) {slot : Ref}
    (awaits : stage.Awaits slot (.group index)) :
    Drafting.Advances plan unifier.conflate (some slot) (unifier.replacement plan members slot) stage
      fun r after => r = slot ∧ ¬ after.Pending slot :=
  Drafting.Advances.mono (unifier.advances_uniting sound listed awaits)
    fun _ _ _ _ filled => ⟨filled.1, filled.2.1⟩

end SchemaGraph
