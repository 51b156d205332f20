import SchemaGraph.Merge.Recursion
import SchemaGraph.Proofs.Draft.Advances
/-!
# Proofs.Draft.Ending -- work that ends, whatever its nested work is bounded by

A bound on nested work is no part of what the work does. `EndsAs work other draft` says that two pieces of
work are one and the same on a draft: they come to the same result or to the same fault, never to a bound
that was reached, and what was copied or unified before is still remembered after. `Calls allowed body draft`
says of a function with its nested work as an argument which nested work it may ask for: its own outcome
depends on no other, so if allowed work ends, whatever it is bounded by, then so does the function.

Nothing is assumed of the draft. No step forgets a copied type or a unified set (`Draft.Recalls`), and each
nested call comes after one more of them was remembered (`Draft.Memoizes`, `Draft.Registers`), of which
there are finitely many over a source.
-/

namespace SchemaGraph

set_option autoImplicit false

/-! ## What a draft remembers -/

/-- What is not remembered later was not remembered before. -/
theorem isNone_of_recalls {κ : Type} [DecidableEq κ] {memory later : OrderedMap κ Ref}
    (recalls : ∀ key, (memory.get? key).isSome → (later.get? key).isSome) {key : κ}
    (left : (later.get? key).isNone) : (memory.get? key).isNone := by
  cases known : memory.get? key with
  | none => rfl
  | some r =>
    have still := recalls key (by rw [known]; rfl)
    rw [Option.isNone_iff_eq_none.1 left] at still
    cases still

namespace Draft

/-- The draft after remembers every type that was copied and every set that was unified. -/
structure Recalls (draft after : Draft) : Prop where
  copied : ∀ old, (draft.copied.get? old).isSome → (after.copied.get? old).isSome
  unified : ∀ key, (draft.unified.get? key).isSome → (after.unified.get? key).isSome

/-- Besides, it remembers a set of types of the source that was not unified before. -/
structure Registers (size : Nat) (draft after : Draft) : Prop extends Recalls draft after where
  new_set : ∃ types : OrderedSet Ref, (∀ r ∈ types, r < size) ∧
    draft.unified.get? (unionKey types) = none ∧ (after.unified.get? (unionKey types)).isSome

/-- Besides, it remembers a type of the source that was not copied before. -/
structure Memoizes (size : Nat) (draft after : Draft) : Prop extends Recalls draft after where
  new_copy : ∃ old < size, draft.copied.get? old = none ∧ (after.copied.get? old).isSome

variable {draft middle after : Draft} {size : Nat}

theorem Recalls.refl (draft : Draft) : draft.Recalls draft := ⟨fun _ => id, fun _ => id⟩

theorem Recalls.trans (one : draft.Recalls middle) (two : middle.Recalls after) : draft.Recalls after :=
  ⟨fun old known => two.copied old (one.copied old known),
    fun key known => two.unified key (one.unified key known)⟩

/-- What does not touch the memory forgets nothing. -/
theorem Recalls.of_eq (copied : after.copied = draft.copied) (unified : after.unified = draft.unified) :
    draft.Recalls after := ⟨fun _ known => copied ▸ known, fun _ known => unified ▸ known⟩

theorem Recalls.unregistered (recalls : draft.Recalls after) {key : List Ref}
    (unknown : after.unified.get? key = none) : draft.unified.get? key = none :=
  Option.isNone_iff_eq_none.1 (isNone_of_recalls recalls.unified (Option.isNone_iff_eq_none.2 unknown))

theorem Recalls.registers (recalls : draft.Recalls middle) (registers : middle.Registers size after) :
    draft.Registers size after := by
  obtain ⟨types, inside, unknown, known⟩ := registers.new_set
  exact ⟨recalls.trans registers.toRecalls, types, inside, recalls.unregistered unknown, known⟩

theorem Registers.recalls (registers : draft.Registers size middle) (recalls : middle.Recalls after) :
    draft.Registers size after := by
  obtain ⟨types, inside, unknown, known⟩ := registers.new_set
  exact ⟨registers.toRecalls.trans recalls, types, inside, unknown, recalls.unified _ known⟩

theorem Memoizes.recalls (memoizes : draft.Memoizes size middle) (recalls : middle.Recalls after) :
    draft.Memoizes size after := by
  obtain ⟨old, inside, unknown, known⟩ := memoizes.new_copy
  exact ⟨memoizes.toRecalls.trans recalls, old, inside, unknown, recalls.copied _ known⟩

/-- One more set is remembered, so fewer are left. -/
theorem Registers.unmerged_lt (registers : draft.Registers size after) :
    after.unmerged size < draft.unmerged size := by
  obtain ⟨types, inside, unknown, known⟩ := registers.new_set
  refine countP_lt (fun key => isNone_of_recalls registers.unified) (unionKey_mem_sublists inside) ?_ ?_
  · rw [unknown]
    rfl
  · rw [Option.isNone_eq_false_iff]
    exact known

/-- One more copy is remembered, so fewer are left. -/
theorem Memoizes.uncopied_lt (memoizes : draft.Memoizes size after) :
    after.uncopied size < draft.uncopied size := by
  obtain ⟨old, inside, unknown, known⟩ := memoizes.new_copy
  refine countP_lt (fun key => isNone_of_recalls memoizes.copied) (List.mem_range.2 inside) ?_ ?_
  · rw [unknown]
    rfl
  · rw [Option.isNone_eq_false_iff]
    exact known

theorem recalls_remember (draft : Draft) (old new : Ref) :
    draft.Recalls { draft with copied := draft.copied.insert old new } := by
  refine ⟨fun other known => ?_, fun _ => id⟩
  rw [OrderedMap.get?_insert]
  split
  · rfl
  · exact known

theorem recalls_register (draft : Draft) (key : List Ref) (new : Ref) :
    draft.Recalls { draft with unified := draft.unified.insert key new } := by
  refine ⟨fun _ => id, fun other known => ?_⟩
  rw [OrderedMap.get?_insert]
  split
  · rfl
  · exact known

end Draft

namespace Drafting

variable {α β γ ι : Type}

/-- On the draft, the work and the other work are the same: they have one outcome, a result or a fault, and
what the draft remembered is remembered after it. -/
structure EndsAs (work other : Drafting α) (draft : Draft) : Prop where
  same : work.run.run draft = other.run.run draft
  ends : ∀ failure, (work.run.run draft).1 = .error failure → ∃ fault, failure = .fault fault
  recalls : draft.Recalls (work.run.run draft).2

/-- On the draft, the work ends with a result or a fault, and what was remembered is remembered after it. -/
abbrev Ends (work : Drafting α) (draft : Draft) : Prop := EndsAs work work draft

/-- The body asks for allowed nested work only: whatever is put in its place, two functions that are the same
wherever they are allowed to be asked make the body the same. -/
def Calls (allowed : ι → Draft → Prop) (body : (ι → Drafting α) → Drafting β) (draft : Draft) : Prop :=
  ∀ inner other : ι → Drafting α,
    (∀ asked after, allowed asked after → EndsAs (inner asked) (other asked) after) →
    EndsAs (body inner) (body other) draft

section Rules

variable {work other : Drafting α} {draft : Draft}

theorem ends_pure (a : α) : Ends (pure a) draft := ⟨rfl, nofun, .refl draft⟩

theorem ends_fault (fault : Fault) : Ends (throw (.fault fault) : Drafting α) draft :=
  ⟨rfl, fun _ failed => ⟨fault, (Except.error.inj failed).symm⟩, .refl draft⟩

theorem EndsAs.bind {next next' : α → Drafting β} (first : EndsAs work other draft)
    (rest : ∀ a after, draft.Recalls after → work.run.run draft = (.ok a, after) →
      EndsAs (next a) (next' a) after) : EndsAs (work >>= next) (other >>= next') draft := by
  have ends := first.ends
  have recalls := first.recalls
  cases ran : work.run.run draft with
  | mk outcome after =>
    have ran' : other.run.run draft = (outcome, after) := first.same.symm.trans ran
    rw [ran] at ends recalls
    cases outcome with
    | error failure =>
      have left : (work >>= next).run.run draft = (.error failure, after) := by rw [run_bind, ran]
      have right : (other >>= next').run.run draft = (.error failure, after) := by rw [run_bind, ran']
      refine ⟨left.trans right.symm, fun reported failed => ends reported ?_, ?_⟩
      · rw [left] at failed
        exact congrArg Except.error (Except.error.inj failed)
      · rw [left]
        exact recalls
    | ok a =>
      have left : (work >>= next).run.run draft = (next a).run.run after := by rw [run_bind, ran]
      have right : (other >>= next').run.run draft = (next' a).run.run after := by rw [run_bind, ran']
      have later := rest a after recalls ran
      refine ⟨left.trans (later.same.trans right.symm), ?_, ?_⟩
      · rw [left]
        exact later.ends
      · rw [left]
        exact recalls.trans later.recalls

/-- Work that is known to end comes before work of which that is to be shown. -/
theorem EndsAs.after {next next' : α → Drafting β} (first : Ends work draft)
    (rest : ∀ a after, draft.Recalls after → EndsAs (next a) (next' a) after) :
    EndsAs (work >>= next) (work >>= next') draft :=
  EndsAs.bind first fun a after recalls _ => rest a after recalls

theorem EndsAs.map (f : α → β) (ends : EndsAs work other draft) : EndsAs (f <$> work) (f <$> other) draft := by
  rw [← bind_pure_comp, ← bind_pure_comp]
  exact ends.bind fun a _ _ _ => ends_pure (f a)

/-- The outcome of a look at the draft is what comes of it. -/
theorem EndsAs.read {next next' : Draft → Drafting β} (ends : EndsAs (next draft) (next' draft) draft) :
    EndsAs (get >>= next) (get >>= next') draft := ⟨ends.same, ends.ends, ends.recalls⟩

theorem EndsAs.write {f : Draft → Draft} {next next' : Unit → Drafting β} (recalls : draft.Recalls (f draft))
    (rest : EndsAs (next ()) (next' ()) (f draft)) :
    EndsAs (modify f >>= next) (modify f >>= next') draft where
  same := rest.same
  ends := rest.ends
  recalls := recalls.trans rest.recalls

theorem EndsAs.reserving {next next' : Ref → Drafting β}
    (rest : EndsAs (next draft.builder.size) (next' draft.builder.size)
      { draft with builder := draft.builder.reserve.2 }) :
    EndsAs (reserve >>= next) (reserve >>= next') draft where
  same := rest.same
  ends := rest.ends
  recalls := by
    have reserved : draft.Recalls { draft with builder := draft.builder.reserve.2 } := .of_eq rfl rfl
    exact reserved.trans rest.recalls

/-- Faults of merging are faults. -/
theorem EndsAs.merged (ends : EndsAs work other draft) :
    EndsAs (ExceptT.adapt Failure.merged work) (ExceptT.adapt Failure.merged other) draft where
  same := by rw [run_adapt, run_adapt, ends.same]
  ends := by
    intro failure failed
    rw [run_adapt] at failed
    cases outcome : (work.run.run draft).1 with
    | ok a =>
      rw [outcome] at failed
      cases failed
    | error reported =>
      obtain ⟨fault, rfl⟩ := ends.ends reported outcome
      rw [outcome] at failed
      exact ⟨.merge fault.merged, (Except.error.inj failed).symm⟩
  recalls := by
    rw [run_adapt]
    exact ends.recalls

/-- One turn for each element of a list. -/
theorem endsAs_mapM {xs : List γ} {step step' : γ → Drafting β}
    (each : ∀ x ∈ xs, ∀ after, draft.Recalls after → EndsAs (step x) (step' x) after) :
    EndsAs (xs.mapM step) (xs.mapM step') draft := by
  induction xs generalizing draft with
  | nil => exact ends_pure []
  | cons x rest ih =>
    rw [List.mapM_cons, List.mapM_cons]
    refine (each x List.mem_cons_self draft (.refl draft)).bind fun y middle recalls _ => ?_
    refine (ih fun z later after after_recalls => ?_).bind fun ys _ _ _ => ends_pure (y :: ys)
    exact each z (List.mem_cons_of_mem _ later) after (recalls.trans after_recalls)

theorem ends_build (operation : Builder → Except GraphFault (α × Builder)) : Ends (build operation) draft := by
  have only : (build operation).run.run draft =
      (build fun _ => operation draft.builder).run.run draft := rfl
  refine ⟨rfl, ?_, ?_⟩
  · intro failure failed
    rw [only] at failed
    cases outcome : operation draft.builder with
    | error fault =>
      rw [outcome] at failed
      exact ⟨.graph fault, (Except.error.inj failed).symm⟩
    | ok answer =>
      rw [outcome] at failed
      cases failed
  · rw [only]
    cases operation draft.builder with
    | error fault => exact .refl draft
    | ok answer => exact Draft.Recalls.of_eq rfl rfl

theorem ends_of_succeeds (success : Succeeds work draft fun _ after => draft.Recalls after) :
    Ends work draft := by
  obtain ⟨result, after, ran, recalls⟩ := success
  refine ⟨rfl, fun failure failed => ?_, ?_⟩
  · rw [ran] at failed
    cases failed
  · rw [ran]
    exact recalls

end Rules

/-! ## Looking things up -/

section Lookup

variable {draft : Draft} (plan : Plan)

theorem ends_report (event : Event) : Ends (report event) draft :=
  ends_of_succeeds (succeeds_report.2 (Draft.Recalls.of_eq rfl rfl))

theorem ends_groupRef (group : Nat) : Ends (groupRef group) draft := by
  refine EndsAs.read ?_
  cases draft.groupRefs.get? group with
  | some r => exact ends_pure r
  | none => exact EndsAs.reserving (EndsAs.write (Draft.Recalls.of_eq rfl rfl) (ends_pure _))

theorem ends_lookupGroup (types : OrderedSet Ref) : Ends (lookupGroup plan types) draft := by
  unfold lookupGroup
  split
  · exact ends_pure none
  · exact EndsAs.map _ (ends_groupRef _)

theorem ends_combineAttributes (registry : Registry) (refs : List Ref) :
    Ends (combineAttributes plan registry refs) draft := by
  refine ends_of_succeeds (succeeds_bind.2 (succeeds_forM_report fun events => ?_))
  exact succeeds_pure.2 (Draft.Recalls.of_eq rfl rfl)

end Lookup

/-! ## Copying -/

section Copying

variable (plan : Plan)

theorem copyWithin_succ (depth : Nat) : copyWithin plan (depth + 1) = copyBy plan (copyWithin plan depth) := by
  funext old
  rfl

/-- Constituents are copied after the type itself was remembered as copied, and it was not before. -/
theorem calls_copyBy (old : Ref) (draft : Draft) :
    Calls (fun (_ : Ref) after => draft.Memoizes plan.source.size after) (fun inner => copyBy plan inner old)
      draft := by
  intro inner other nested
  unfold copyBy
  cases found : plan.source.node? old with
  | none => exact ends_fault _
  | some node =>
    simp only
    cases plan.groupOf? old with
    | some group => exact ends_groupRef group
    | none =>
      refine EndsAs.read ?_
      cases copied : draft.copied.get? old with
      | some new => exact ends_pure new
      | none =>
        simp only
        split
        · exact EndsAs.after (ends_build _) fun new after _ =>
            EndsAs.write (after.recalls_remember old new) (ends_pure new)
        · refine EndsAs.reserving (EndsAs.write (Draft.recalls_remember _ old _) ?_)
          have remembered : draft.Memoizes plan.source.size
              { draft with
                builder := draft.builder.reserve.2
                copied := draft.copied.insert old draft.builder.size } := by
            refine ⟨?_, old, plan.source.lt_of_node? found, copied, ?_⟩
            · exact draft.recalls_remember old draft.builder.size |>.trans (.of_eq rfl rfl)
            · rw [OrderedMap.get?_insert, if_pos rfl]
              rfl
          refine EndsAs.bind (endsAs_mapM fun child _ after recalls => nested child after ?_)
            fun children _ _ _ => ends_build _
          exact remembered.recalls recalls

/-- With more copies to nest than there are types left to copy, the bound does not matter. -/
theorem endsAs_copyWithin {depth other : Nat} {old : Ref} {draft : Draft}
    (enough : draft.uncopied plan.source.size < depth) (enough' : draft.uncopied plan.source.size < other) :
    EndsAs (copyWithin plan depth old) (copyWithin plan other old) draft := by
  induction depth generalizing other old draft with
  | zero => exact absurd enough (Nat.not_lt_zero _)
  | succ depth ih =>
    cases other with
    | zero => exact absurd enough' (Nat.not_lt_zero _)
    | succ other =>
      rw [copyWithin_succ, copyWithin_succ]
      refine calls_copyBy plan old draft _ _ fun child after memoizes => ?_
      have fewer := memoizes.uncopied_lt
      exact ih (by omega) (by omega)

theorem ends_copy (old : Ref) (draft : Draft) : Ends (copy plan old) draft :=
  endsAs_copyWithin plan (Nat.lt_succ_of_le (draft.uncopied_le _)) (Nat.lt_succ_of_le (draft.uncopied_le _))

/-- Copying copies the constituents of a type as it copies the type, with no bound. -/
theorem copy_eq : copy plan = copyBy plan (copy plan) := by
  funext old draft
  have left := draft.uncopied_le plan.source.size
  have further : EndsAs (copy plan old) (copyWithin plan (plan.source.size + 1 + 1) old) draft :=
    endsAs_copyWithin plan (by omega) (by omega)
  exact further.same

end Copying

end Drafting

end SchemaGraph
