import SchemaGraph.Draft.Copy
import SchemaGraph.Proofs.Draft.Ensures
import SchemaGraph.Proofs.Draft.Plan
import SchemaGraph.Proofs.Node
import SchemaGraph.Proofs.Ordered
/-!
# Proofs.Draft.Copying -- copies, whatever else is done to a draft

A draft may be worked on by a replacement of which nothing is known. Still every type that the draft
remembers as copied has, at its new reference, its node over the references that stand for its
constituents, except while it is being copied: then the reference is reserved, and the constituents come
first (`Draft.Copying`, over the stack of copies in progress). Nodes that are there and memories of copies
and groups never change again (`Draft.Extends`), so what was copied stays copied.

`Drafting.ensures_copy` is the induction: copying leaves every reference alone that was there, so when
it comes to fill the reference that it reserved, it still can, and it never ends with a fault.
-/

namespace SchemaGraph

set_option autoImplicit false

/-! ## Builders -/

namespace Builder

variable {b after : Builder} {r : Ref} {node : Node}

/-- The builder holds what the other one held, and knows no plain primitive type but by a node that holds
it. -/
structure Extends (b after : Builder) : Prop where
  size_le : b.size ≤ after.size
  nodes : ∀ {r node}, b.node? r = some node → after.node? r = some node
  target_eq : after.target = b.target
  tops_eq : after.tops = b.tops
  interned : ∀ {p r}, after.interned.get? p = some r →
    b.interned.get? p = some r ∨ after.node? r = some ⟨.primitive p, .empty⟩

theorem Extends.refl (b : Builder) : b.Extends b := ⟨Nat.le_refl _, id, rfl, rfl, .inl⟩

theorem Extends.trans {first second third : Builder} (one : first.Extends second)
    (two : second.Extends third) : first.Extends third where
  size_le := Nat.le_trans one.size_le two.size_le
  nodes found := two.nodes (one.nodes found)
  target_eq := two.target_eq.trans one.target_eq
  tops_eq := two.tops_eq.trans one.tops_eq
  interned known := by
    rcases two.interned known with before | there
    · exact (one.interned before).imp_right two.nodes
    · exact .inr there

theorem extends_push {slot : Option Node} {interned : OrderedMap Primitive Ref}
    (knows : ∀ {p r}, interned.get? p = some r → b.interned.get? p = some r ∨
      r = b.size ∧ slot = some ⟨.primitive p, .empty⟩) :
    b.Extends ⟨b.target, b.slots.push slot, b.tops, interned⟩ where
  size_le := by
    rw [size, size, Array.size_push]
    omega
  nodes found := by
    rw [node?, slots_push (lt_of_node? found)]
    exact found
  target_eq := rfl
  tops_eq := rfl
  interned known := by
    rcases knows known with old | ⟨rfl, rfl⟩
    · exact .inl old
    · exact .inr (node?_of_slots Array.getElem?_push_size)

theorem extends_fill (filled : b.fill node r = .ok after) : b.Extends after := by
  unfold fill at filled
  split at filled
  · cases filled
  · cases filled
  · rename_i pending
    cases filled
    refine ⟨Nat.le_of_eq Array.size_setIfInBounds.symm, fun {s old} found => ?_, rfl, rfl, .inl⟩
    have other : r ≠ s := by
      rintro rfl
      rw [node?, pending] at found
      cases found
    rw [node?, Array.getElem?_setIfInBounds_ne other]
    exact found

/-- A node that is appended is at the reference that is returned, and no node was moved. -/
theorem extends_append (node : Node)
    (known : ∀ {p r}, b.interned.get? p = some r → b.node? r = some ⟨.primitive p, .empty⟩) :
    b.Extends (b.append node).2 ∧ (b.append node).2.node? (b.append node).1 = some node ∧
      ∀ {r}, r < b.size → (b.append node).2.slots[r]? = b.slots[r]? := by
  cases plain : node.plain? with
  | none =>
    simp only [append, plain, push]
    exact ⟨extends_push .inl, node?_of_slots Array.getElem?_push_size, slots_push⟩
  | some p =>
    have same := node.eq_of_plain? plain
    cases found : b.interned.get? p with
    | some r =>
      have appended : b.append node = (r, b) := by simp only [append, plain, found]
      rw [appended]
      exact ⟨.refl b, same ▸ known found, fun _ => rfl⟩
    | none =>
      simp only [append, plain, found, push]
      refine ⟨extends_push fun {q r} listed => ?_, node?_of_slots Array.getElem?_push_size, slots_push⟩
      rcases (OrderedMap.get?_insert_eq_some_iff found).1 listed with ⟨rfl, rfl⟩ | earlier
      · exact .inr ⟨rfl, congrArg some same⟩
      · exact .inl earlier

/-- Whatever a builder adds, it holds what it held. -/
theorem extends_add {slot? : Option Ref}
    (known : ∀ {p r}, b.interned.get? p = some r → b.node? r = some ⟨.primitive p, .empty⟩)
    (added : b.add node slot? = .ok (r, after)) : b.Extends after := by
  unfold add at added
  split at added
  · cases added
  · cases slot? with
    | none =>
      have same : b.append (b.target.normalize node) = (r, after) := Except.ok.inj added
      have appended := (extends_append (b.target.normalize node) known).1
      rwa [same] at appended
    | some slot =>
      cases filled : b.fill (b.target.normalize node) slot with
      | error fault =>
        simp only [filled] at added
        cases added
      | ok other =>
        simp only [filled] at added
        cases added
        exact extends_fill filled

end Builder

/-! ## Copies -/

namespace Draft

variable (plan : Plan) (draft after : Draft)

/-- The draft remembers the new reference for the type of the source: that of its group, or that of its
copy. -/
def Maps (old new : Ref) : Prop :=
  match plan.groupOf? old with
  | some group => draft.groupRefs.get? group = some new
  | none => draft.copied.get? old = some new

/-- The new reference holds the node of the old one, over what the draft remembers for its
constituents. -/
def Shows (old new : Ref) : Prop :=
  ∃ node news, plan.source.node? old = some node ∧ List.Forall₂ (draft.Maps plan) node.children news ∧
    draft.builder.node? new =
      some (draft.builder.target.normalize ⟨node.type.withChildren news, node.attributes⟩)

/-- The draft holds and remembers all that the other one did. -/
structure Extends : Prop where
  builder : draft.builder.Extends after.builder
  groups : ∀ {group r}, draft.groupRefs.get? group = some r → after.groupRefs.get? group = some r
  copies : ∀ {old new}, draft.copied.get? old = some new → after.copied.get? old = some new

/-- Every type that is remembered as copied is shown by its copy, unless it is on the stack of those being
copied. -/
structure Copying (stack : List Ref) : Prop where
  shows : ∀ {old new}, draft.copied.get? old = some new → old ∉ stack → draft.Shows plan old new
  copies_lt : ∀ {old new}, draft.copied.get? old = some new → new < draft.builder.size
  groups_lt : ∀ {group r}, draft.groupRefs.get? group = some r → r < draft.builder.size
  interned : ∀ {p r}, draft.builder.interned.get? p = some r →
    draft.builder.node? r = some ⟨.primitive p, .empty⟩

variable {plan draft after} {stack : List Ref} {old new : Ref}

theorem Extends.refl (draft : Draft) : draft.Extends draft := ⟨.refl _, id, id⟩

theorem Extends.trans {first second third : Draft} (one : first.Extends second)
    (two : second.Extends third) : first.Extends third :=
  ⟨one.builder.trans two.builder, fun known => two.groups (one.groups known),
    fun known => two.copies (one.copies known)⟩

theorem Maps.later (maps : draft.Maps plan old new) (extends_ : draft.Extends after) :
    after.Maps plan old new := by
  unfold Maps at maps ⊢
  split at maps
  · exact extends_.groups maps
  · exact extends_.copies maps

theorem Shows.later (shows : draft.Shows plan old new) (extends_ : draft.Extends after) :
    after.Shows plan old new := by
  obtain ⟨node, news, found, maps, there⟩ := shows
  refine ⟨node, news, found, maps.imp fun _ _ maps => maps.later extends_, ?_⟩
  rw [extends_.builder.target_eq]
  exact extends_.builder.nodes there

theorem Copying.lt_of_maps (copying : draft.Copying plan stack) (maps : draft.Maps plan old new) :
    new < draft.builder.size := by
  unfold Maps at maps
  split at maps
  · exact copying.groups_lt maps
  · exact copying.copies_lt maps

/-- Whatever holds more, and remembers no more copies, is still copying. -/
theorem Copying.later (copying : draft.Copying plan stack) (extends_ : draft.Extends after)
    (copies : ∀ {old new}, after.copied.get? old = some new → draft.copied.get? old = some new)
    (groups : ∀ {group r}, after.groupRefs.get? group = some r →
      draft.groupRefs.get? group = some r ∨ r < after.builder.size) : after.Copying plan stack where
  shows known free := (copying.shows (copies known) free).later extends_
  copies_lt known := Nat.lt_of_lt_of_le (copying.copies_lt (copies known)) extends_.builder.size_le
  groups_lt known := by
    rcases groups known with before | inside
    · exact Nat.lt_of_lt_of_le (copying.groups_lt before) extends_.builder.size_le
    · exact inside
  interned known := by
    rcases extends_.builder.interned known with before | there
    · exact extends_.builder.nodes (copying.interned before)
    · exact there

/-- The draft remembers nothing, so nothing is copied. -/
theorem copying_start (plan : Plan) (target : Target) : (start target).Copying plan [] :=
  ⟨nofun, nofun, nofun, nofun⟩

/-- The draft extends another one, and the references that this one had are as they were. -/
structure Appends (draft after : Draft) : Prop extends draft.Extends after where
  slots_eq : ∀ {r}, r < draft.builder.size → after.builder.slots[r]? = draft.builder.slots[r]?

theorem Appends.refl (draft : Draft) : draft.Appends draft := ⟨.refl _, fun _ => rfl⟩

theorem Appends.trans {first second third : Draft} (one : first.Appends second)
    (two : second.Appends third) : first.Appends third where
  toExtends := one.toExtends.trans two.toExtends
  slots_eq inside := (two.slots_eq (Nat.lt_of_lt_of_le inside one.builder.size_le)).trans (one.slots_eq inside)

theorem appends_reserve (draft : Draft) :
    draft.Appends { draft with builder := draft.builder.reserve.2 } where
  builder := Builder.extends_push .inl
  groups := id
  copies := id
  slots_eq := Builder.slots_push

theorem Copying.reserve (copying : draft.Copying plan stack) :
    ({ draft with builder := draft.builder.reserve.2 } : Draft).Copying plan stack :=
  copying.later draft.appends_reserve.toExtends id .inl

/-- A type is remembered as copied, and is being copied from then on. -/
theorem Copying.remember (copying : draft.Copying plan stack) (fresh : draft.copied.get? old = none)
    (inside : new < draft.builder.size) :
    draft.Appends { draft with copied := draft.copied.insert old new } ∧
      ({ draft with copied := draft.copied.insert old new } : Draft).Copying plan (old :: stack) := by
  have appends : draft.Appends { draft with copied := draft.copied.insert old new } :=
    ⟨⟨.refl _, id, OrderedMap.get?_insert_of_fresh fresh⟩, fun _ => rfl⟩
  refine ⟨appends, ?_, ?_, copying.groups_lt, copying.interned⟩
  · intro other r known free
    rw [List.mem_cons, not_or] at free
    rw [OrderedMap.get?_insert, if_neg (Ne.symm free.1)] at known
    exact (copying.shows known free.2).later appends.toExtends
  · intro other r known
    rcases (OrderedMap.get?_insert_eq_some_iff fresh).1 known with ⟨_, rfl⟩ | earlier
    · exact inside
    · exact copying.copies_lt earlier

/-- A type that is shown by its copy is no longer being copied. -/
theorem Copying.pop (copying : draft.Copying plan (old :: stack)) (known : draft.copied.get? old = some new)
    (shows : draft.Shows plan old new) : draft.Copying plan stack where
  shows {other r} listed free := by
    by_cases same : other = old
    · rw [same] at listed ⊢
      rw [known] at listed
      cases listed
      exact shows
    · exact copying.shows listed fun on => (List.mem_cons.1 on).elim same free
  copies_lt := copying.copies_lt
  groups_lt := copying.groups_lt
  interned := copying.interned

end Draft

namespace Drafting

variable {plan : Plan} {draft : Draft} {stack : List Ref}

/-- The reference of a group is the one that is remembered from then on. -/
theorem ensures_groupRef (copying : draft.Copying plan stack) (group : Nat) :
    Ensures (groupRef group) draft (fun r after => after.Copying plan stack ∧ draft.Appends after ∧
      after.groupRefs.get? group = some r) fun _ => False := by
  unfold groupRef
  refine ensures_bind.2 (ensures_get.2 ?_)
  cases known : draft.groupRefs.get? group with
  | some r => exact ensures_pure.2 ⟨copying, .refl draft, known⟩
  | none =>
    refine ensures_bind.2 (ensures_reserve.2 (ensures_bind.2 (ensures_modify.2 (ensures_pure.2 ?_))))
    have reserved := draft.appends_reserve
    have appends : draft.Appends
        { draft with
          builder := draft.builder.reserve.2
          groupRefs := draft.groupRefs.insert group draft.builder.size } :=
      ⟨⟨reserved.builder, OrderedMap.get?_insert_of_fresh known, id⟩, reserved.slots_eq⟩
    refine ⟨copying.later appends.toExtends id ?_, appends, ?_⟩
    · intro other r listed
      rcases (OrderedMap.get?_insert_eq_some_iff known).1 listed with ⟨_, rfl⟩ | earlier
      · right
        show draft.builder.slots.size < (draft.builder.slots.push none).size
        rw [Array.size_push]
        omega
      · exact .inl earlier
    · rw [OrderedMap.get?_insert, if_pos rfl]

/-- A primitive type is added, or found, and remembered as the copy. -/
theorem ensures_copyPrimitive {old : Ref} {node : Node} (copying : draft.Copying plan stack)
    (found : plan.source.node? old = some node) (primitive : node.kind.isPrimitive = true)
    (fresh : draft.copied.get? old = none) :
    Ensures (add node none >>= fun new => remember old new >>= fun _ => pure new) draft
      (fun new after => after.Copying plan stack ∧ draft.Appends after ∧
        after.copied.get? old = some new) fun _ => False := by
  have noChildren := node.children_of_isPrimitive primitive
  obtain ⟨extends_, here, slots⟩ :=
    Builder.extends_append (draft.builder.target.normalize node) copying.interned
  have added : draft.builder.add node none =
      .ok (draft.builder.append (draft.builder.target.normalize node)) := by
    rw [Builder.add, noChildren]
    rfl
  refine ensures_bind.2 (ensures_build (fun fault refused => ?_) fun new builder same => ?_)
  · rw [added] at refused
    cases refused
  rw [added] at same
  have outcome : draft.builder.append (draft.builder.target.normalize node) = (new, builder) :=
    Except.ok.inj same
  rw [outcome] at extends_ here slots
  have first : draft.Appends { draft with builder } := ⟨⟨extends_, id, id⟩, slots⟩
  obtain ⟨second, remembered⟩ :=
    (copying.later first.toExtends id .inl).remember fresh (Builder.lt_of_node? here)
  have known : (draft.copied.insert old new).get? old = some new := by
    rw [OrderedMap.get?_insert, if_pos rfl]
  refine ensures_bind.2 (ensures_modify.2 (ensures_pure.2 ⟨remembered.pop known ?_, first.trans second, known⟩))
  refine ⟨node, [], found, by rw [noChildren]; exact .nil, ?_⟩
  have unchanged : node.type.withChildren [] = node.type := by
    obtain ⟨type, attributes⟩ := node
    cases type <;> first | rfl | cases primitive
  rw [unchanged]
  exact here.trans (by rw [extends_.target_eq])

/-- Steps over a list that keep what they found lead to one reference for each element. -/
theorem ensures_mapM_maps {olds : List Ref} {step : Ref → Drafting Ref} (copying : draft.Copying plan stack)
    (each : ∀ old ∈ olds, ∀ before : Draft, before.Copying plan stack →
      Ensures (step old) before (fun new after => after.Copying plan stack ∧ before.Appends after ∧
        after.Maps plan old new) fun _ => False) :
    Ensures (olds.mapM step) draft (fun news after => after.Copying plan stack ∧ draft.Appends after ∧
      List.Forall₂ (after.Maps plan) olds news) fun _ => False := by
  induction olds generalizing draft with
  | nil => exact ensures_pure.2 ⟨copying, .refl draft, .nil⟩
  | cons old rest ih =>
    rw [List.mapM_cons, ensures_bind]
    refine (each old List.mem_cons_self draft copying).mono ?_ fun _ => id
    rintro new middle ⟨copyingMiddle, first, maps⟩
    rw [ensures_bind]
    refine (ih copyingMiddle fun other later => each other (List.mem_cons_of_mem _ later)).mono ?_ fun _ => id
    rintro news after ⟨copyingAfter, second, all⟩
    exact ensures_pure.2 ⟨copyingAfter, first.trans second, .cons (maps.later second.toExtends) all⟩

/-- A type that is not primitive is remembered before its constituents are copied, and its reference is
still to be filled when they are. -/
theorem ensures_copyCompound {old : Ref} {node : Node} {copyChild : Ref → Drafting Ref}
    (copying : draft.Copying plan stack) (found : plan.source.node? old = some node)
    (fresh : draft.copied.get? old = none)
    (each : ∀ child ∈ node.children, ∀ {stack} {before : Draft}, before.Copying plan stack →
      Ensures (copyChild child) before (fun new after => after.Copying plan stack ∧
        before.Appends after ∧ after.Maps plan child new) fun _ => False) :
    Ensures (reserve >>= fun slot => remember old slot >>= fun _ => node.children.mapM copyChild >>=
        fun news => add ⟨node.type.withChildren news, node.attributes⟩ (some slot)) draft
      (fun new after => after.Copying plan stack ∧ draft.Appends after ∧
        after.copied.get? old = some new) fun _ => False := by
  let slot := draft.builder.size
  refine ensures_bind.2 (ensures_reserve.2 (ensures_bind.2 (ensures_modify.2 ?_)))
  have reserved := draft.appends_reserve
  have inside : slot < (draft.builder.slots.push none).size := by
    rw [Array.size_push]
    exact Nat.lt_succ_self _
  obtain ⟨remembers, pushed⟩ := copying.reserve.remember fresh inside
  refine ensures_bind.2 ((ensures_mapM_maps pushed fun child member before => each child member).mono
    ?_ fun _ => id)
  rintro news after ⟨copyingAfter, appends, maps⟩
  have known : after.copied.get? old = some slot :=
    appends.copies (by rw [OrderedMap.get?_insert, if_pos rfl])
  have pending : after.builder.slots[slot]? = some none :=
    (appends.slots_eq inside).trans Array.getElem?_push_size
  have children : ∀ r ∈ (⟨node.type.withChildren news, node.attributes⟩ : Node).children,
      r < after.builder.size := by
    intro r member
    have listed := (Ty.mem_children_withChildren maps.length_eq.symm).1 member
    obtain ⟨child, _, stands⟩ := exists_of_mem_right maps listed
    exact copyingAfter.lt_of_maps stands
  have added := Builder.add_of_pending children pending
  refine ensures_build (fun fault refused => ?_) fun new builder same => ?_
  · rw [added] at refused
    cases refused
  have first := (reserved.trans remembers).trans appends
  have last : after.Extends { after with builder } :=
    ⟨Builder.extends_add copyingAfter.interned same, id, id⟩
  rw [added] at same
  cases same
  refine ⟨(copyingAfter.later last id .inl).pop known ?_, ⟨first.toExtends.trans last, ?_⟩, known⟩
  · refine ⟨node, news, found, maps.imp fun _ _ maps => maps.later last, Builder.node?_of_slots ?_⟩
    exact Array.getElem?_setIfInBounds_self_of_lt (copyingAfter.copies_lt known)
  · intro r before
    exact (Array.getElem?_setIfInBounds_ne (Nat.ne_of_gt before)).trans (first.slots_eq before)

/-- Copying leaves every reference alone that was there, and never ends with a fault. -/
theorem ensures_copyWithin {depth : Nat} {old : Ref} (copying : draft.Copying plan stack)
    (inside : old < plan.source.size) :
    Ensures (copyWithin plan depth old) draft (fun new after => after.Copying plan stack ∧
      draft.Appends after ∧ after.Maps plan old new) fun _ => False := by
  -- the induction is on the bound, and the stack says which copies are in progress
  induction depth generalizing draft stack old with
  | zero => trivial
  | succ depth ih =>
    obtain ⟨node, found⟩ : ∃ node, plan.source.node? old = some node :=
      ⟨plan.source.nodes[old], Array.getElem?_eq_getElem inside⟩
    simp only [copyWithin, found]
    cases group : plan.groupOf? old with
    | some index =>
      refine (ensures_groupRef copying index).mono ?_ fun _ => id
      rintro new after ⟨copyingAfter, appends, known⟩
      refine ⟨copyingAfter, appends, ?_⟩
      simpa only [Draft.Maps, group] using known
    | none =>
      refine ensures_bind.2 (ensures_get.2 ?_)
      cases copied : draft.copied.get? old with
      | some new =>
        refine ensures_pure.2 ⟨copying, .refl draft, ?_⟩
        simpa only [Draft.Maps, group] using copied
      | none =>
        simp only
        by_cases primitive : node.kind.isPrimitive = true
        · rw [if_pos primitive]
          refine (ensures_copyPrimitive copying found primitive copied).mono ?_ fun _ => id
          rintro new after ⟨copyingAfter, appends, known⟩
          refine ⟨copyingAfter, appends, ?_⟩
          simpa only [Draft.Maps, group] using known
        · rw [if_neg primitive]
          have children : ∀ child ∈ node.children, child < plan.source.size := fun child member =>
            plan.source.children_lt (by rw [Graph.children, found]; exact member)
          refine (ensures_copyCompound copying found copied fun child member =>
            fun before => ih before (children child member)).mono ?_ fun _ => id
          rintro new after ⟨copyingAfter, appends, known⟩
          refine ⟨copyingAfter, appends, ?_⟩
          simpa only [Draft.Maps, group] using known

end Drafting

end SchemaGraph
