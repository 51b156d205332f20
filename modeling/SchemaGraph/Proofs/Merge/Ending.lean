import SchemaGraph.Proofs.Draft.Ending
import SchemaGraph.Proofs.Merge.Unify
/-!
# Proofs.Merge.Ending -- unifying ends on every graph

Nothing gets smaller when types are unified: a record that is built may have more properties than any of
those that it is built from, and a union may contain itself. What gets fewer are the sets of types of the
source that were not unified yet. A set is remembered before anything is built for it, a member of a union
before it is built, and what is remembered ends the recursion (`Drafting.calls_buildBy`). So a bound on
nested unifications that is greater than the number of sets is never reached, and does not matter
(`Drafting.endsAs_buildWithin`); what it bounds is the recursion without a bound (`Drafting.unify_ends`).

The draft is any draft: it need not be one that the replacement of groups leads to, and what it remembers
need not be right.
-/

namespace SchemaGraph

set_option autoImplicit false

/-! ## Sets of types of the source -/

namespace Graph

variable (g : Graph) {refs : OrderedSet Ref} {t : Ref}

theorem lt_of_mem_itemsOf (member : t ∈ g.itemsOf refs) : t < g.size := by
  obtain ⟨r, _, child⟩ := g.mem_children_of_mem_itemsOf member
  exact g.children_lt child

theorem lt_of_mem_valuesOf (member : t ∈ g.valuesOf refs) : t < g.size := by
  obtain ⟨r, _, child⟩ := g.mem_children_of_mem_valuesOf member
  exact g.children_lt child

theorem lt_of_mem_types {merged : MergedProperty} (listed : merged ∈ mergeProperties (g.recordsOf refs))
    (member : t ∈ merged.types) : t < g.size := by
  obtain ⟨record, there, p, found, rfl⟩ := exists_property_of_mem_types listed member
  obtain ⟨r, _, type⟩ := g.mem_recordsOf.1 there
  have child : p.type ∈ g.children r := by
    rw [g.children_of_type? type]
    exact List.mem_map_of_mem (List.mem_map_of_mem (OrderedMap.get?_eq_some_iff.1 found))
  exact g.children_lt child

end Graph

namespace Drafting

variable (plan : Plan) (unifier : Unifier)

/-! ## The bounded functions -/

section Bounded

/-- Building the types of parts is done by the function that is given for it. -/
theorem buildParts_eq (inner : OrderedSet Ref → Drafting Ref) (attributes : Bag) (slot : Ref)
    (parts : List (Kind × OrderedSet Ref)) :
    buildParts plan unifier.registry inner attributes slot parts =
      partsBy plan unifier (fun call => buildKind plan inner call.kind call.refs call.attributes call.slot)
        attributes slot parts := by
  match parts with
  | [] => rfl
  | [_] => rfl
  | _ :: _ :: _ => rfl

theorem unifyInto_eq (inner : OrderedSet Ref → Drafting Ref) (types : OrderedSet Ref) (attributes : Bag)
    (slot : Ref) : unifyInto plan unifier inner types attributes slot =
      intoBy plan unifier (fun call => buildKind plan inner call.kind call.refs call.attributes call.slot)
        types attributes slot := by
  unfold unifyInto intoBy
  simp only [buildParts_eq]

theorem unifyWithin_succ (depth : Nat) (types : OrderedSet Ref) (attributes : Bag) (slot? : Option Ref) :
    unifyWithin plan unifier (depth + 1) types attributes slot? =
      unifyBy plan unifier (buildWithin plan unifier depth) types attributes slot? := by
  cases slot? with
  | none =>
    show (if _ then _ else _) = (if _ then _ else _)
    simp only [unifyInto_eq]
    rfl
  | some slot =>
    show (if _ then _ else _) = (if _ then _ else _)
    simp only [unifyInto_eq]
    rfl

theorem buildWithin_succ (depth : Nat) :
    buildWithin plan unifier (depth + 1) = buildBy plan unifier (buildWithin plan unifier depth) := by
  funext call
  simp only [buildWithin, unifyWithin_succ]
  rfl

end Bounded

/-! ## Steps -/

section Steps

variable {plan unifier} {build other : BuildCall → Drafting Ref} {draft : Draft}

theorem EndsAs.recall {α : Type} {types : OrderedSet Ref} {next next' : Option Ref → Drafting α}
    (ends : EndsAs (next (draft.unified.get? (unionKey types))) (next' (draft.unified.get? (unionKey types)))
      draft) : EndsAs (lookupUnion types >>= next) (lookupUnion types >>= next') draft :=
  ⟨ends.same, ends.ends, ends.recalls⟩

/-- A set of types that was not unified before is remembered. -/
theorem registers_register {types : OrderedSet Ref} {size : Nat} (inside : ∀ r ∈ types, r < size)
    (unknown : draft.unified.get? (unionKey types) = none) (builder : Builder) (new : Ref) :
    draft.Registers size { draft with builder, unified := draft.unified.insert (unionKey types) new } where
  toRecalls := (draft.recalls_register (unionKey types) new).trans (.of_eq rfl rfl)
  new_set := by
    refine ⟨types, inside, unknown, ?_⟩
    rw [OrderedMap.get?_insert, if_pos rfl]
    rfl

theorem ends_alone? (refs : OrderedSet Ref) (slot : Ref) : Ends (alone? plan refs slot) draft := by
  unfold alone?
  split
  · exact EndsAs.after (ends_lookupGroup plan refs) fun group after _ => ends_pure _
  · exact ends_pure none

theorem ends_checkInside {types : OrderedSet Ref} (inside : ∀ r ∈ types, r < plan.source.size) :
    Ends (checkInside plan types) draft := by
  have all : types.toList.find? (fun r => !plan.source.has r) = none := by
    refine List.find?_eq_none.2 fun r listed => ?_
    simpa [Graph.has] using inside r listed
  rw [checkInside, all]
  exact ends_pure ()

/-- Where no type is known for a set, the set was not unified before. -/
theorem EndsAs.knowing {types : OrderedSet Ref} {next next' : Option Ref → Drafting Ref}
    (known : ∀ r after, draft.Recalls after → EndsAs (next (some r)) (next' (some r)) after)
    (unknown : ∀ after, draft.Recalls after → after.unified.get? (unionKey types) = none →
      EndsAs (next none) (next' none) after) :
    EndsAs (known? plan types >>= next) (known? plan types >>= next') draft := by
  rw [known?, bind_assoc, bind_assoc]
  refine EndsAs.after (ends_lookupGroup plan types) fun found first recalls => ?_
  cases found with
  | some r => exact known r first recalls
  | none =>
    simp only [bind_assoc]
    refine EndsAs.recall ?_
    cases unified : first.unified.get? (unionKey types) with
    | some r => exact known r first recalls
    | none =>
      simp only
      split
      · rename_i single _
        rw [map_eq_pure_bind, bind_assoc, bind_assoc]
        exact EndsAs.after (ends_copy plan single first) fun r second later =>
          known r second (recalls.trans later)
      · exact unknown first recalls unified

/-- The type of one kind is built over what sets of types of the source are unified into. -/
theorem endsAs_buildKind {inner inner' : OrderedSet Ref → Drafting Ref} (kind : Kind) (refs : OrderedSet Ref)
    (attributes : Bag) (slot : Ref)
    (unifies : ∀ types after, (∀ r ∈ types, r < plan.source.size) → draft.Recalls after →
      EndsAs (inner types) (inner' types) after) :
    EndsAs (buildKind plan inner kind refs attributes slot) (buildKind plan inner' kind refs attributes slot)
      draft := by
  have adds : ∀ (node : Node) (after : Draft), Ends (add node (some slot)) after := fun _ _ => ends_build _
  have addsPrimitive : Ends (addPrimitive kind attributes (some slot)) draft := ends_build _
  cases kind with
  | enum => exact adds _ draft
  | array =>
    exact (unifies _ draft (fun _ => plan.source.lt_of_mem_itemsOf) (.refl draft)).bind
      fun items after _ _ => adds _ after
  | map =>
    exact (unifies _ draft (fun _ => plan.source.lt_of_mem_valuesOf) (.refl draft)).bind
      fun values after _ _ => adds _ after
  | record =>
    refine EndsAs.bind ?_ fun record after _ _ => adds _ after
    refine EndsAs.bind (endsAs_mapM fun merged listed after recalls => ?_) fun _ _ _ _ => ends_pure _
    exact (unifies merged.types after (fun _ => plan.source.lt_of_mem_types listed) recalls).bind
      fun _ _ _ _ => ends_pure _
  | union => exact ends_fault _
  | _ => exact addsPrimitive

/-! ## Members, parts, sets -/

/-- A member is built after its contributors were remembered as unified, and they were not before. -/
theorem endsAs_memberBy (slot : Ref) {part : Kind × OrderedSet Ref}
    (inside : ∀ r ∈ part.2, r < plan.source.size)
    (nested : ∀ call after, draft.Registers plan.source.size after → EndsAs (build call) (other call) after) :
    EndsAs (memberBy plan unifier build slot part) (memberBy plan unifier other slot part) draft := by
  refine EndsAs.after (ends_alone? part.2 slot) fun found first recalls => ?_
  cases found with
  | some single => exact ends_copy plan single first
  | none =>
    refine EndsAs.recall ?_
    cases unknown : first.unified.get? (unionKey part.2) with
    | some r => exact ends_pure r
    | none =>
      refine EndsAs.reserving (EndsAs.write (Draft.recalls_register _ _ _) ?_)
      refine EndsAs.after (ends_combineAttributes plan _ _) fun attributes second later => nested _ second ?_
      exact recalls.registers ((registers_register inside unknown _ _).recalls later)

theorem endsAs_partsBy (attributes : Bag) (slot : Ref) {parts : List (Kind × OrderedSet Ref)}
    (inside : ∀ part ∈ parts, ∀ r ∈ part.2, r < plan.source.size)
    (own : ∀ call : BuildCall, call.slot = slot → EndsAs (build call) (other call) draft)
    (nested : ∀ call after, draft.Registers plan.source.size after → EndsAs (build call) (other call) after) :
    EndsAs (partsBy plan unifier build attributes slot parts) (partsBy plan unifier other attributes slot parts)
      draft := by
  have several : EndsAs
      (parts.mapM (memberBy plan unifier build slot) >>= fun members =>
        add ⟨.union (.ofList members), attributes⟩ (some slot))
      (parts.mapM (memberBy plan unifier other slot) >>= fun members =>
        add ⟨.union (.ofList members), attributes⟩ (some slot)) draft := by
    refine EndsAs.bind (endsAs_mapM fun part listed after recalls => ?_) fun members after _ _ => ends_build _
    exact endsAs_memberBy slot (inside part listed) fun call final registers =>
      nested call final (recalls.registers registers)
  match parts with
  | [] => exact several
  | [(kind, refs)] => exact own ⟨kind, refs, attributes, slot⟩ rfl
  | _ :: _ :: _ => exact several

/-- Types are built after the set was remembered as unified: the one in the slot of the set, or those of its
members, each after one more set. -/
theorem endsAs_intoBy {types : OrderedSet Ref} (inside : ∀ r ∈ types, r < plan.source.size) (attributes : Bag)
    (slot : Ref)
    (nested : ∀ (call : BuildCall) after, draft.Recalls after →
      (after.unified.get? (unionKey types)).isSome →
      (draft.Registers plan.source.size after ∨ call.slot = slot) → EndsAs (build call) (other call) after) :
    EndsAs (intoBy plan unifier build types attributes slot) (intoBy plan unifier other types attributes slot)
      draft := by
  have recalls := draft.recalls_register (unionKey types) slot
  refine EndsAs.write recalls ?_
  have known : (({ draft with unified := draft.unified.insert (unionKey types) slot } : Draft).unified.get?
      (unionKey types)).isSome := by
    rw [OrderedMap.get?_insert, if_pos rfl]
    rfl
  refine EndsAs.after (ends_checkInside inside) fun _ first one => ?_
  refine EndsAs.after (ends_report _) fun _ second two => ?_
  have later := one.trans two
  refine endsAs_partsBy attributes slot ?_ (fun call own => ?_) fun call after registers => ?_
  · intro part listed r member
    have part := (plan.source.mem_contributors _).1 listed
    exact (plan.source.mem_leaves_iff.1 (part.leaf member)).1
  · exact nested call second (recalls.trans later) (later.unified _ known) (.inr own)
  · have all := (recalls.trans later).registers registers
    exact nested call after all.toRecalls (registers.unified _ (later.unified _ known)) (.inl all)

/-- Unifying builds types after its set was remembered as unified, and after one more set was, unless the
type is the one for the slot that was given. -/
theorem calls_unifyBy {types : OrderedSet Ref} (inside : ∀ r ∈ types, r < plan.source.size) (attributes : Bag)
    (slot? : Option Ref) (draft : Draft) :
    Calls (fun (call : BuildCall) after => draft.Recalls after ∧
        (after.unified.get? (unionKey types)).isSome ∧
        (draft.Registers plan.source.size after ∨ slot? = some call.slot))
      (fun build => unifyBy plan unifier build types attributes slot?) draft := by
  intro build other nested
  unfold unifyBy
  split
  · exact ends_fault _
  · cases slot? with
    | some slot =>
      refine endsAs_intoBy inside attributes slot fun call after recalls known new => ?_
      exact nested call after ⟨recalls, known, new.imp_right fun own => congrArg some own.symm⟩
    | none =>
      refine EndsAs.knowing (fun r after _ => ends_pure r) fun first recalls unknown => ?_
      refine EndsAs.reserving (endsAs_intoBy inside attributes _ fun call after later known _ => ?_)
      have reserved : first.Recalls { first with builder := first.builder.reserve.2 } := .of_eq rfl rfl
      have all : draft.Recalls after := (recalls.trans reserved).trans later
      exact nested call after ⟨all, known, .inl ⟨all, types, inside, recalls.unregistered unknown, known⟩⟩

/-- Building a type builds others after one more set was remembered as unified. -/
theorem calls_buildBy (call : BuildCall) (draft : Draft) :
    Calls (fun (_ : BuildCall) after => draft.Registers plan.source.size after)
      (fun build => buildBy plan unifier build call) draft := by
  intro build other nested
  refine endsAs_buildKind _ _ _ _ fun types after inside recalls => ?_
  refine EndsAs.after (ends_combineAttributes plan _ _) fun attributes first later => ?_
  refine calls_unifyBy inside attributes none first build other ?_
  rintro next final ⟨_, _, registers | none⟩
  · exact nested next final ((recalls.trans later).registers registers)
  · cases none

end Steps

/-! ## The bound does not matter -/

section Bounds

variable {plan unifier} {draft : Draft}

/-- With more unifications to nest than there are sets left to unify, the bound does not matter. -/
theorem endsAs_buildWithin {depth other : Nat} {call : BuildCall}
    (enough : draft.unmerged plan.source.size < depth) (enough' : draft.unmerged plan.source.size < other) :
    EndsAs (buildWithin plan unifier depth call) (buildWithin plan unifier other call) draft := by
  induction depth generalizing other call draft with
  | zero => exact absurd enough (Nat.not_lt_zero _)
  | succ depth ih =>
    cases other with
    | zero => exact absurd enough' (Nat.not_lt_zero _)
    | succ other =>
      rw [buildWithin_succ, buildWithin_succ]
      refine calls_buildBy call draft _ _ fun next after registers => ?_
      have fewer := registers.unmerged_lt
      exact ih (by omega) (by omega)

theorem endsAs_unifyWithin {types : OrderedSet Ref} (inside : ∀ r ∈ types, r < plan.source.size)
    (attributes : Bag) (slot? : Option Ref) {depth other : Nat} (enough : unifyDepth plan ≤ depth)
    (enough' : unifyDepth plan ≤ other) :
    EndsAs (unifyWithin plan unifier depth types attributes slot?)
      (unifyWithin plan unifier other types attributes slot?) draft := by
  obtain ⟨depth, rfl⟩ := Nat.exists_eq_add_of_le' enough
  obtain ⟨other, rfl⟩ := Nat.exists_eq_add_of_le' enough'
  rw [unifyDepth, ← Nat.add_assoc, ← Nat.add_assoc, unifyWithin_succ, unifyWithin_succ]
  refine calls_unifyBy inside attributes slot? draft _ _ ?_
  rintro call after ⟨_, known, _⟩
  have fewer := after.unmerged_lt inside known
  exact endsAs_buildWithin (by omega) (by omega)

end Bounds

/-! ## Recursion without a bound -/

section Unbounded

/-- Copying a type and building one do by calling themselves what they do within a bound. On every draft they
end, and what they call themselves for comes after one more type was remembered as copied, or one more set
of types as unified, than on that draft. -/
structure Unwinds : Prop where
  copy_eq : copy plan = copyBy plan (copy plan)
  copies : ∀ old draft, Ends (copy plan old) draft ∧
    Calls (fun (_ : Ref) after => draft.Memoizes plan.source.size after) (fun inner => copyBy plan inner old)
      draft
  build_eq : buildType plan unifier = buildBy plan unifier (buildType plan unifier)
  builds : ∀ call draft, Ends (buildType plan unifier call) draft ∧
    Calls (fun (_ : BuildCall) after => draft.Registers plan.source.size after)
      (fun build => buildBy plan unifier build call) draft

theorem unwinds : Unwinds plan unifier where
  copy_eq := copy_eq plan
  copies old draft := ⟨ends_copy plan old draft, calls_copyBy plan old draft⟩
  build_eq := by
    funext call draft
    have left := draft.unmerged_le plan.source.size
    have further : EndsAs (buildType plan unifier call) (buildWithin plan unifier (unifyDepth plan + 1) call)
        draft := endsAs_buildWithin (Nat.lt_succ_of_le left) (Nat.lt_succ_of_lt (Nat.lt_succ_of_le left))
    rw [buildWithin_succ] at further
    exact further.same
  builds call draft := by
    have left := draft.unmerged_le plan.source.size
    exact ⟨endsAs_buildWithin (Nat.lt_succ_of_le left) (Nat.lt_succ_of_le left), calls_buildBy call draft⟩

/-- Whatever the graph, its unions containing themselves or not, whatever the groups, and whatever was copied
and unified before: unifying a set of types of the source ends with a type or a fault, and forgets nothing
that was copied or unified. It is the function that calls itself with no bound. A type of one kind is built
only after the set was remembered as unified, and one more set than before was, unless it is the type for
the slot that was given. Every type that is built below that one is built after one more set was remembered,
and every constituent that is copied is copied after one more type was. -/
theorem unify_ends {types : OrderedSet Ref} (inside : ∀ r ∈ types, r < plan.source.size) (attributes : Bag)
    (slot? : Option Ref) (draft : Draft) :
    Ends (unify plan unifier types attributes slot?) draft ∧
      unify plan unifier types attributes slot? =
        ExceptT.adapt Failure.merged (unifyBy plan unifier (buildType plan unifier) types attributes slot?) ∧
      Calls (fun (call : BuildCall) after => draft.Recalls after ∧
          (after.unified.get? (unionKey types)).isSome ∧
          (draft.Registers plan.source.size after ∨ slot? = some call.slot))
        (fun build => unifyBy plan unifier build types attributes slot?) draft ∧
      Unwinds plan unifier := by
  refine ⟨?_, ?_, calls_unifyBy inside attributes slot? draft, unwinds plan unifier⟩
  · exact (endsAs_unifyWithin inside attributes slot? (Nat.le_refl _) (Nat.le_refl _)).merged
  · funext draft
    have further : EndsAs (unify plan unifier types attributes slot?)
        (ExceptT.adapt Failure.merged
          (unifyWithin plan unifier (unifyDepth plan + 1) types attributes slot?)) draft :=
      (endsAs_unifyWithin inside attributes slot? (Nat.le_refl _) (Nat.le_succ _)).merged
    rw [unifyWithin_succ] at further
    exact further.same

end Unbounded

/-- A union that contains itself, and two records over it. -/
def selfish : Graph :=
  ⟨#[⟨.union (.ofList [0, 1, 2]), .empty⟩, .required [("a", 0)] false, ⟨.array 3, .empty⟩,
      .required [("a", 1)] false],
    .ofList [("A", 0)], firstFault?_eq_none_iff.1 (by decide +kernel)⟩

/-- Nothing of that graph is replaced. -/
def selfishPlan : Plan := ⟨selfish, [], by decide, by decide, by decide⟩

theorem unify_selfish_ends :
    (∀ r ∈ OrderedSet.ofList [1, 3], r < selfish.size) ∧ 0 ∈ selfish.members 0 ∧
      Ends (unify selfishPlan ⟨.standard, true⟩ (.ofList [1, 3]) .empty none) (.start .standard) := by
  have inside : ∀ r ∈ OrderedSet.ofList [1, 3], r < selfish.size := by decide
  refine ⟨inside, by decide, ?_⟩
  exact (unify_ends selfishPlan ⟨.standard, true⟩ inside .empty none (.start .standard)).1

end Drafting

end SchemaGraph
