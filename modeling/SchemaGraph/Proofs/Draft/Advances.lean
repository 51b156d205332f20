import SchemaGraph.Proofs.Draft.Plan
import SchemaGraph.Proofs.Draft.Steps
/-!
# Proofs.Draft.Advances -- work on a draft, followed from stage to stage

`Drafting.Advances plan conflate slot work stage result` says that the work succeeds from the stage,
leaves a sound stage that follows it, and that its result satisfies `result` there. It is what is
proved of every function on drafts; the functions that call it need no more.

* `Advances.bind`, `Advances.mapM`: steps in a row, and one step for each element of a list.
* `Advances.open`: a reference is reserved for an origin, and the work that fills it leaves the rest
  alone.
* `Draft.uncopied`, `Draft.unmerged`: how much may still be copied and merged. Work never adds to
  them, and opening a reference takes from one of them: this bounds nested work.
-/

namespace SchemaGraph

set_option autoImplicit false

namespace Drafting

variable {α β : Type} (plan : Plan) (conflate : Bool)

/-- The work succeeds from the stage, and leaves a sound stage that follows it and satisfies the
condition. -/
def Advances (slot : Option Ref) (work : Drafting α) (stage : Stage)
    (result : α → Stage → Prop) : Prop :=
  Succeeds work stage.draft fun a draft => ∃ after : Stage, after.draft = draft ∧
    after.Sound plan conflate ∧ stage.Follows slot after ∧ result a after

section Rules

variable {plan conflate} {slot : Option Ref} {stage : Stage} {result : α → Stage → Prop}

theorem Advances.done {a : α} (sound : stage.Sound plan conflate) (holds : result a stage) :
    Advances plan conflate slot (pure a) stage result :=
  succeeds_pure.2 ⟨stage, rfl, sound, .refl sound slot, holds⟩

/-- Work that leaves everything alone comes before work on a reference. -/
theorem Advances.bind {work : Drafting β} {next : β → Drafting α} {middle : β → Stage → Prop}
    (first : Advances plan conflate none work stage middle)
    (rest : ∀ b after, after.Sound plan conflate → stage.Follows none after → middle b after →
      Advances plan conflate slot (next b) after result) :
    Advances plan conflate slot (work >>= next) stage result := by
  refine succeeds_bind.2 (Succeeds.mono first ?_)
  rintro b _ ⟨after, rfl, sound, follows, holds⟩
  refine Succeeds.mono (rest b after sound follows holds) ?_
  rintro a _ ⟨final, rfl, finalSound, later, done⟩
  exact ⟨final, rfl, finalSound, (follows.widen slot).trans later, done⟩

theorem Advances.mono {work : Drafting α} {wider : α → Stage → Prop}
    (advances : Advances plan conflate slot work stage result)
    (widen : ∀ a after, after.Sound plan conflate → stage.Follows slot after → result a after →
      wider a after) : Advances plan conflate slot work stage wider := by
  refine Succeeds.mono advances ?_
  rintro a _ ⟨after, rfl, sound, follows, holds⟩
  exact ⟨after, rfl, sound, follows, widen a after sound follows holds⟩

theorem Advances.map {work : Drafting β} {f : β → α}
    (advances : Advances plan conflate slot work stage fun b after => result (f b) after) :
    Advances plan conflate slot (f <$> work) stage result :=
  succeeds_map.2 advances

theorem Advances.read {next : Draft → Drafting α}
    (rest : Advances plan conflate slot (next stage.draft) stage result) :
    Advances plan conflate slot (get >>= next) stage result :=
  succeeds_bind.2 (succeeds_get.2 rest)

theorem advances_report (event : Event) (sound : stage.Sound plan conflate) :
    Advances plan conflate slot (report event) stage fun _ after => after.trace = stage.trace := by
  let events := event :: stage.draft.events
  exact succeeds_modify.2 ⟨stage.reported events, rfl, sound.reported events,
    .reported sound slot events, rfl⟩

theorem advances_combineAttributes (registry : Registry) (refs : List Ref)
    (sound : stage.Sound plan conflate) :
    Advances plan conflate slot (combineAttributes plan registry refs) stage
      fun _ after => after.trace = stage.trace := by
  refine succeeds_bind.2 (succeeds_forM_report fun events => ?_)
  exact succeeds_pure.2 ⟨stage.reported events, rfl, sound.reported events, .reported sound slot events,
    rfl⟩

/-- One step for each element of a list. What the steps before found keeps holding as the trace
grows. -/
theorem Advances.mapM {f : α → Drafting β} (rel : Trace → α → β → Prop) {xs : List α}
    (sound : stage.Sound plan conflate)
    (stable : ∀ {trace wider : Trace}, (∀ n origin, trace n origin → wider n origin) →
      ∀ {x y}, rel trace x y → rel wider x y)
    (each : ∀ x ∈ xs, ∀ after : Stage, after.Sound plan conflate → stage.Follows none after →
      Advances plan conflate none (f x) after fun y final => rel final.trace x y) :
    Advances plan conflate none (xs.mapM f) stage
      fun ys after => List.Forall₂ (rel after.trace) xs ys := by
  induction xs generalizing stage with
  | nil =>
    rw [List.mapM_nil]
    exact .done sound .nil
  | cons x rest ih =>
    rw [List.mapM_cons]
    refine .bind (each x List.mem_cons_self stage sound (.refl sound none)) ?_
    intro y middle middleSound first here
    refine .bind (ih middleSound fun z later after afterSound follows =>
      each z (List.mem_cons_of_mem _ later) after afterSound (first.trans follows)) ?_
    intro ys final finalSound second there
    exact .done finalSound (.cons (stable second.grows here) there)

end Rules

/-! ## Opening and filling -/

section Building

variable {plan conflate} {stage : Stage}

/-- A reference is reserved for an origin, and the work that follows fills it. -/
theorem Advances.open {α : Type} {origin : Origin} {note : Ref → Drafting Unit}
    {next : Ref → Drafting α} {result : α → Stage → Prop}
    (notes : ∀ r, note r = modify fun draft : Draft => draft.recorded r origin)
    (sound : stage.Sound plan conflate) (known : plan.Known origin) (plural : plan.Plural origin)
    (fresh : stage.draft.Fresh origin) (noGroup : ∀ index, origin ≠ .group index)
    (rest : (stage.opened origin).Sound plan conflate →
      Advances plan conflate (some stage.size) (next stage.size) (stage.opened origin)
        fun a after => ¬ after.Pending stage.size ∧ result a after) :
    Advances plan conflate none (reserve >>= fun r => note r >>= fun _ => next r) stage result := by
  refine succeeds_bind.2 (succeeds_reserve.2 (succeeds_bind.2 ?_))
  rw [notes]
  refine succeeds_modify.2 ?_
  have advanced : Succeeds (next stage.size)
      (({ stage.draft with builder := stage.draft.builder.reserve.2 } : Draft).recorded
        stage.size origin) _ := rest (sound.opened known plural fresh)
  refine Succeeds.mono advanced ?_
  rintro a _ ⟨after, rfl, afterSound, follows, filled, holds⟩
  have opened : stage.Follows (some stage.size) after :=
    (Stage.Follows.opened sound).trans follows
  refine ⟨after, rfl, afterSound, opened.close (Nat.le_refl _) filled ?_, holds⟩
  intro index group
  have here := follows.grows _ _ Stage.trace_opened
  exact noGroup index (afterSound.eq_of_not_copy (Origin.not_isCopy_group index) group here)

/-- A node that may stand for the origin of a pending reference fills it, and changes nothing else. -/
theorem Advances.fill_node {n : Ref} {node : Node} {origin : Origin} (sound : stage.Sound plan conflate)
    (awaits : stage.Awaits n origin) (realises : plan.Realises conflate stage.trace origin node) :
    Advances plan conflate (some n) (add node (some n)) stage fun r after => r = n ∧
      after.trace = stage.trace ∧
      after.node? n = some (stage.draft.builder.target.normalize node) := by
  have pending := awaits.pending
  refine succeeds_build_iff.2 ⟨n, (stage.filled n node).draft.builder, ?_, stage.filled n node, rfl,
    sound.filled awaits realises, .filled sound, rfl, rfl, Stage.node?_filled_self pending⟩
  refine Builder.add_of_pending (fun child member => ?_) pending
  obtain ⟨other, found⟩ := realises.children member
  exact sound.lt found

theorem Advances.fill {n : Ref} {node : Node} {origin : Origin} (sound : stage.Sound plan conflate)
    (awaits : stage.Awaits n origin) (realises : plan.Realises conflate stage.trace origin node) :
    Advances plan conflate (some n) (add node (some n)) stage
      fun r after => r = n ∧ ¬ after.Pending n := by
  refine Advances.mono (.fill_node sound awaits realises) ?_
  rintro r after _ _ ⟨same, _, found⟩
  exact ⟨same, Stage.not_pending_of_node? found⟩

theorem Advances.fillPrimitive {n : Ref} {p : Primitive} {attributes : Bag} {origin : Origin}
    (sound : stage.Sound plan conflate) (awaits : stage.Awaits n origin)
    (realises : plan.Realises conflate stage.trace origin ⟨.primitive p, attributes⟩) :
    Advances plan conflate (some n) (addPrimitive p.kind attributes (some n)) stage
      fun r after => r = n ∧ ¬ after.Pending n := by
  have same : Drafting.addPrimitive p.kind attributes (some n) =
      Drafting.add ⟨.primitive p, attributes⟩ (some n) := by
    unfold Drafting.addPrimitive Drafting.add Builder.addPrimitive
    rw [Kind.primitive?_kind]
  rw [same]
  exact .fill sound awaits realises

end Building

/-! ## Looking things up -/

section Lookup

variable {plan conflate} {stage : Stage} {slot : Option Ref}

theorem advances_groupRef {index : Nat} (sound : stage.Sound plan conflate)
    (listed : index < plan.groups.length) :
    Advances plan conflate none (groupRef index) stage
      fun n after => after.trace n (.group index) := by
  refine .read ?_
  cases found : stage.draft.groupRefs.get? index with
  | some n => exact .done sound (sound.group_iff.2 found)
  | none =>
    refine succeeds_bind.2 (succeeds_reserve.2 (succeeds_bind.2 (succeeds_modify.2 ?_)))
    exact succeeds_pure.2 ⟨stage.opened (.group index), rfl, sound.opened listed trivial found,
      .opened_group sound index, Stage.trace_opened⟩

theorem advances_lookupGroup {types : OrderedSet Ref} (sound : stage.Sound plan conflate) :
    Advances plan conflate none (lookupGroup plan types) stage fun found after =>
      match plan.commonGroup? types.toList with
      | some group => ∃ n, found = some n ∧ after.trace n (.group group)
      | none => found = none := by
  unfold Drafting.lookupGroup
  cases common : plan.commonGroup? types.toList with
  | none => exact .done sound rfl
  | some group =>
    refine .map (Advances.mono (advances_groupRef sound (plan.commonGroup?_lt common)) ?_)
    exact fun n after _ _ traced => ⟨n, rfl, traced⟩

theorem advances_lookupUnion {types : OrderedSet Ref} (sound : stage.Sound plan conflate) :
    Advances plan conflate slot (lookupUnion types) stage fun found after =>
      after = stage ∧ found = stage.draft.unified.get? (unionKey types) :=
  .read (.done sound ⟨rfl, rfl⟩)

theorem advances_registerUnion {types : OrderedSet Ref} {n : Ref}
    (sound : stage.Sound plan conflate) (merged : plan.Merged stage.trace types n) :
    Advances plan conflate slot (registerUnion types n) stage
      fun _ after => after = stage.registered types n :=
  succeeds_modify.2 ⟨_, rfl, sound.registered merged, .registered sound slot types n, rfl⟩

end Lookup

end Drafting

/-! ## How much is left -/

namespace Draft

variable (draft : Draft) (size : Nat)

/-- The number of types of the source that were not copied. -/
def uncopied : Nat := (List.range size).countP fun old => (draft.copied.get? old).isNone

/-- The number of sets of types of the source that were not merged. -/
def unmerged : Nat :=
  ((List.range size).sublists).countP fun key => (draft.unified.get? key).isNone

end Draft

/-- Remembering one of the keys leaves fewer of them. -/
theorem countP_isNone_insert_lt {κ : Type} [DecidableEq κ] {memory : OrderedMap κ Ref} {keys : List κ}
    {key : κ} (listed : key ∈ keys) (fresh : memory.get? key = none) (n : Ref) :
    (keys.countP fun k => ((memory.insert key n).get? k).isNone) <
      keys.countP fun k => (memory.get? k).isNone := by
  refine countP_lt ?_ listed ?_ ?_
  · intro k left
    rw [OrderedMap.get?_insert] at left
    split at left
    · cases left
    · exact left
  · rw [fresh]
    rfl
  · rw [OrderedMap.get?_insert, if_pos rfl]
    rfl

namespace Draft

variable (draft : Draft)

theorem uncopied_le (size : Nat) : draft.uncopied size ≤ size :=
  List.countP_le_length.trans_eq List.length_range

theorem length_sublists_range (size : Nat) : (List.range size).sublists.length = Nat.pow 2 size := by
  rw [List.length_sublists, List.length_range]
  rfl

theorem unmerged_le (size : Nat) : draft.unmerged size ≤ Nat.pow 2 size :=
  List.countP_le_length.trans_eq (length_sublists_range size)

/-- Where a set of types of the source was merged, fewer sets are left than there are. -/
theorem unmerged_lt {types : OrderedSet Ref} {size : Nat} (inside : ∀ r ∈ types, r < size)
    (known : (draft.unified.get? (unionKey types)).isSome) : draft.unmerged size < Nat.pow 2 size := by
  rw [← length_sublists_range, ← List.countP_true]
  refine countP_lt (fun _ _ => rfl) (unionKey_mem_sublists inside) rfl ?_
  rw [Option.isNone_eq_false_iff]
  exact known

end Draft

namespace Stage

variable {plan : Plan} {conflate : Bool} {before after : Stage} {slot : Option Ref} (size : Nat)

/-- Work does not add to what may be copied. -/
theorem Follows.uncopied_le (follows : before.Follows slot after)
    (sound : before.Sound plan conflate) (later : after.Sound plan conflate) :
    after.draft.uncopied size ≤ before.draft.uncopied size := by
  refine List.countP_mono_left fun old _ left => ?_
  rw [Option.isNone_iff_eq_none] at left ⊢
  cases found : before.draft.copied.get? old with
  | none => rfl
  | some n =>
    have still := later.copy_iff.1 (follows.grows _ _ (sound.copy_iff.2 found))
    rw [still] at left
    cases left

/-- Work does not add to what may be merged. -/
theorem Follows.unmerged_le (follows : before.Follows slot after) :
    after.draft.unmerged size ≤ before.draft.unmerged size := by
  refine List.countP_mono_left fun key _ left => ?_
  rw [Option.isNone_iff_eq_none] at left ⊢
  cases found : before.draft.unified.get? key with
  | none => rfl
  | some n =>
    have known : (before.draft.unified.get? key).isSome := by rw [found]; rfl
    have still := follows.remembers known
    rw [left] at still
    cases still

/-- Opening the copy of a type takes it from what may be copied. -/
theorem uncopied_opened {size : Nat} {old : Ref} (inside : old < size)
    (fresh : before.draft.Fresh (.copy old)) :
    (before.opened (.copy old)).draft.uncopied size < before.draft.uncopied size :=
  countP_isNone_insert_lt (List.mem_range.2 inside) fresh before.size

/-- Opening the merge of a set of types takes it from what may be merged. -/
theorem unmerged_opened {size : Nat} {types : OrderedSet Ref} (inside : ∀ r ∈ types, r < size)
    (fresh : before.draft.Fresh (.merge types)) :
    (before.opened (.merge types)).draft.unmerged size < before.draft.unmerged size :=
  countP_isNone_insert_lt (unionKey_mem_sublists inside) fresh before.size

end Stage

end SchemaGraph
