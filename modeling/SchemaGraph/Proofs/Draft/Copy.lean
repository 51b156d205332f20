import SchemaGraph.Proofs.Draft.Advances
/-!
# Proofs.Draft.Copy -- copying ends, and copies what it is given

Copying a type that is reached succeeds and leads to a reference that stands for it
(`Drafting.advances_copy`). The induction is on the bound on nested copies: a type that is not
primitive is remembered before its constituents are copied, so what may still be copied shrinks
with every level (`Stage.uncopied_opened`) and the number of types is bound enough.
-/

namespace SchemaGraph

set_option autoImplicit false

namespace Stage

variable {plan : Plan} {conflate : Bool} {stage : Stage}

/-! ## Copying a primitive type -/

/-- A node in a slot of its own makes a builder grow. -/
theorem Grown.push (node : Node) (origin : Origin) :
    stage.Grown (stage.draft.builder.push node).2 stage.size origin where
  lt_iff {m} := by
    have size : (stage.draft.builder.push node).2.size = stage.size + 1 := Array.size_push _
    rw [size]
    omega
  slots_eq := Builder.slots_push
  target_eq := rfl
  tops_eq := rfl
  interned found := .inl found

theorem node?_push (stage : Stage) (node : Node) :
    (stage.draft.builder.push node).2.node? stage.size = some node :=
  Builder.node?_of_slots Array.getElem?_push_size

/-- Where the builder puts a node of its own accord: in a new slot, or where the plain primitive
type is that it is equal to. -/
theorem Grown.append (sound : stage.Sound plan conflate) (old : Ref) (node : Node) :
    stage.Grown (stage.draft.builder.append node).2 (stage.draft.builder.append node).1 (.copy old) ∧
      (stage.draft.builder.append node).2.node? (stage.draft.builder.append node).1 = some node ∧
      ((stage.draft.builder.append node).1 < stage.size →
        stage.Plain (stage.draft.builder.append node).1 ∧
          ∀ {other}, stage.trace (stage.draft.builder.append node).1 other → other.IsCopy) := by
  cases plain : node.plain? with
  | none =>
    have appended : stage.draft.builder.append node = stage.draft.builder.push node := by
      simp only [Builder.append, plain]
    rw [appended]
    refine ⟨.push node _, stage.node?_push node, fun inside => ?_⟩
    exact absurd inside (Nat.lt_irrefl _)
  | some p =>
    have same := node.eq_of_plain? plain
    cases found : stage.draft.builder.interned.get? p with
    | some r =>
      have appended : stage.draft.builder.append node = (r, stage.draft.builder) := by
        simp only [Builder.append, plain, found]
      rw [appended]
      obtain ⟨here, copies⟩ := sound.interned found
      have inside := lt_of_node? here
      refine ⟨?_, here.trans (congrArg some same.symm), fun _ => ⟨⟨p, here⟩, copies⟩⟩
      refine { lt_iff := ?_, slots_eq := fun _ => rfl, target_eq := rfl, tops_eq := rfl,
               interned := .inl }
      intro m
      constructor
      · exact .inl
      · rintro (old | rfl)
        · exact old
        · exact inside
    | none =>
      have appended : stage.draft.builder.append node = (stage.size,
          { (stage.draft.builder.push node).2 with
            interned := stage.draft.builder.interned.insert p stage.size }) := by
        simp only [Builder.append, plain, found]
        rfl
      rw [appended]
      have grown : stage.Grown _ _ (.copy old) := .push node (.copy old)
      have here : _ = some node := stage.node?_push node
      refine ⟨?_, here, fun inside => absurd inside (Nat.lt_irrefl _)⟩
      refine { lt_iff := grown.lt_iff, slots_eq := grown.slots_eq, target_eq := rfl, tops_eq := rfl,
               interned := ?_ }
      intro q m known
      have lookup : (stage.draft.builder.interned.insert p stage.size).get? q = some m := known
      rcases (OrderedMap.get?_insert_eq_some_iff found).1 lookup with ⟨rfl, rfl⟩ | earlier
      · exact .inr ⟨rfl, ⟨old, rfl⟩, here.trans (congrArg some same)⟩
      · exact .inl earlier

end Stage

namespace Drafting

variable {plan : Plan} {conflate : Bool} {stage : Stage}

/-- A primitive type is added, or found, and remembered as the copy. -/
theorem advances_copyPrimitive {old : Ref} {node : Node} (sound : stage.Sound plan conflate)
    (found : plan.source.node? old = some node) (primitive : node.kind.isPrimitive = true)
    (known : plan.Known (.copy old)) (fresh : stage.draft.Fresh (.copy old)) :
    Advances plan conflate none
      (add node none >>= fun new => remember old new >>= fun _ => pure new) stage
      fun new after => after.trace new (.copy old) := by
  obtain ⟨p, isPrimitive⟩ := Option.isSome_iff_exists.1 primitive
  have kind : node.type.kind = p.kind := Kind.primitive?_eq_some_iff.1 isPrimitive
  have type : node.type = .primitive p := Ty.eq_primitive_of_kind kind
  have noChildren := node.children_of_isPrimitive primitive
  let target := stage.draft.builder.target
  obtain ⟨grown, here, shares⟩ :=
    Stage.Grown.append sound old (target.normalize node)
  have added : Builder.add stage.draft.builder node none =
      .ok (stage.draft.builder.append (target.normalize node)) := by
    rw [Builder.add, noChildren]
    rfl
  generalize stage.draft.builder.append (target.normalize node) = outcome at grown here shares added
  obtain ⟨new, builder⟩ := outcome
  refine succeeds_bind.2 (succeeds_build_iff.2 ⟨new, builder, added, ?_⟩)
  refine succeeds_bind.2 (succeeds_modify.2 (succeeds_pure.2 ?_))
  refine ⟨stage.noted builder new (.copy old), rfl, ?_, ?_, .inr ⟨rfl, rfl⟩⟩
  · refine sound.noted grown known trivial fresh ?_ ?_
    · intro other traced
      obtain ⟨plain, copies⟩ := shares (sound.lt traced)
      exact ⟨copies traced, ⟨old, rfl⟩, plain⟩
    · intro final filled
      have same : target.normalize node = final := Option.some.inj (here.symm.trans filled)
      have copied : plan.Realises conflate stage.trace (.copy old)
          ⟨node.type.withChildren [], node.attributes⟩ := .copy found (by rw [noChildren]; exact .nil)
      have unchanged : (⟨node.type.withChildren [], node.attributes⟩ : Node) = node := by
        obtain ⟨nodeType, attributes⟩ := node
        simp only at type
        rw [type]
        rfl
      rw [unchanged] at copied
      exact ⟨node, copied, by rw [← same, grown.target_eq]⟩
  · refine .noted grown ?_ ?_ ?_ sound
    · intro inside
      obtain ⟨⟨q, plain⟩, _⟩ := shares inside
      refine ⟨⟨old, rfl⟩, fun pending => ?_⟩
      rw [pending.node?_eq] at plain
      cases plain
    · intro pending
      rw [Builder.node?, pending] at here
      cases here
    · intro index same
      cases same

/-! ## Copying a type -/

/-- With bound enough, copying a type that is reached leads to a reference that stands for it. -/
theorem advances_copyWithin {depth : Nat} {old : Ref} (sound : stage.Sound plan conflate)
    (reached : plan.Reached old) (enough : stage.draft.uncopied plan.source.size < depth) :
    Advances plan conflate none (copyWithin plan depth old) stage
      fun new after => plan.CopyOf after.trace old new := by
  induction depth generalizing stage old with
  | zero => cases enough
  | succ depth ih =>
    obtain ⟨node, found⟩ : ∃ node, plan.source.node? old = some node := by
      cases found : plan.source.node? old with
      | some node => exact ⟨node, rfl⟩
      | none => exact absurd reached.lt (Nat.not_lt.2 (plan.source.node?_eq_none_iff.1 found))
    simp only [copyWithin, found]
    cases group : plan.groupOf? old with
    | some index =>
      refine Advances.mono (advances_groupRef sound (plan.groupOf?_lt group)) ?_
      intro new after _ _ traced
      simp only [Plan.CopyOf, group]
      exact traced
    | none =>
      have stands : ∀ {trace : Trace} {new : Ref}, trace new (.copy old) →
          plan.CopyOf trace old new := by
        intro trace new traced
        simp only [Plan.CopyOf, group]
        exact traced
      have known : plan.Known (.copy old) := ⟨reached, group⟩
      refine .read ?_
      cases copied : stage.draft.copied.get? old with
      | some new => exact .done sound (stands (sound.copy_iff.2 copied))
      | none =>
        simp only
        by_cases primitive : node.kind.isPrimitive = true
        · rw [if_pos primitive]
          refine Advances.mono (advances_copyPrimitive sound found primitive known copied) ?_
          exact fun new after _ _ traced => stands traced
        · rw [if_neg primitive]
          -- the type is remembered first, so its constituents find less to copy
          refine .open (fun _ => rfl) sound known trivial copied (fun _ => nofun) fun openedSound => ?_
          have shrinks : (stage.opened (.copy old)).draft.uncopied plan.source.size <
              stage.draft.uncopied plan.source.size := Stage.uncopied_opened reached.lt copied
          have children : ∀ child ∈ node.children, plan.Reached child := by
            intro child member
            refine .child reached ?_
            rw [Graph.children, found]
            exact member
          refine .bind (.mapM plan.CopyOf openedSound (fun grows _ _ => .mono grows) ?_) ?_
          · intro child member after afterSound follows
            refine ih afterSound (children child member) ?_
            have fewer := follows.uncopied_le plan.source.size openedSound afterSound
            omega
          · intro news after afterSound follows related
            have awaits := Stage.awaits_opened.later follows
            refine Advances.mono (.fill afterSound awaits (.copy found related)) ?_
            rintro r final _ later ⟨rfl, filled⟩
            exact ⟨filled, stands (later.grows _ _ awaits.traced)⟩

/-- Copying a type that is reached leads to a reference that stands for it. -/
theorem advances_copy {old : Ref} (sound : stage.Sound plan conflate) (reached : plan.Reached old) :
    Advances plan conflate none (copy plan old) stage
      fun new after => plan.CopyOf after.trace old new := by
  refine advances_copyWithin sound reached ?_
  have all : stage.draft.uncopied plan.source.size ≤ (List.range plan.source.size).length :=
    List.countP_le_length
  rw [List.length_range] at all
  exact Nat.lt_succ_of_le all

end Drafting

end SchemaGraph
