import SchemaGraph.Proofs.Draft.Success
/-!
# Proofs.Draft.Ensures -- work on a draft, however it ends

`Ensures work draft post faulty` says what the work leaves behind if it ends: `post` if it has a result,
`faulty` if it ends with a fault. It is a statement of partial correctness, for work of which nothing is
known but the steps that it consists of. A fault may be caught, and then the draft that it left is worked
on further, so it is not enough to say what holds after a success. The failures that no one catches, a
lookup outside the graph and a bound that was reached, are passed over.
-/

namespace SchemaGraph

set_option autoImplicit false

namespace Drafting

variable {α β γ : Type}

/-- The result and the draft that is left satisfy a condition, and so does the draft that a fault
leaves. -/
def Ensures (work : Drafting α) (draft : Draft) (post : α → Draft → Prop) (faulty : Draft → Prop) : Prop :=
  match work.run.run draft with
  | (.ok result, after) => post result after
  | (.error (.fault _), after) => faulty after
  | (.error _, _) => True

section Rules

variable {work : Drafting α} {draft : Draft} {post wider : α → Draft → Prop} {faulty worse : Draft → Prop}

theorem Ensures.mono (ensures : Ensures work draft post faulty)
    (widen : ∀ result after, post result after → wider result after)
    (worsen : ∀ after, faulty after → worse after) : Ensures work draft wider worse := by
  unfold Ensures at ensures ⊢
  split at ensures
  · exact widen _ _ ensures
  · exact worsen _ ensures
  · trivial

/-- What holds of every result holds of one that the work is known to have. -/
theorem Ensures.of_run (ensures : Ensures work draft post faulty) {result : α} {after : Draft}
    (run : work.run.run draft = (.ok result, after)) : post result after := by
  unfold Ensures at ensures
  rw [run] at ensures
  exact ensures

/-- What is left after a success is known, and there is no fault. -/
theorem Succeeds.ensures (success : Succeeds work draft post) : Ensures work draft post faulty := by
  obtain ⟨result, after, run, holds⟩ := success
  unfold Ensures
  rw [run]
  exact holds

theorem ensures_pure {a : α} : Ensures (pure a) draft post faulty ↔ post a draft := Iff.rfl

theorem ensures_bind {next : α → Drafting β} {post : β → Draft → Prop} :
    Ensures (work >>= next) draft post faulty ↔
      Ensures work draft (fun result after => Ensures (next result) after post faulty) faulty := by
  unfold Ensures
  rw [run_bind]
  cases work.run.run draft with
  | mk outcome after =>
    cases outcome with
    | ok result => exact Iff.rfl
    | error failure => cases failure <;> exact Iff.rfl

theorem ensures_get {post : Draft → Draft → Prop} : Ensures get draft post faulty ↔ post draft draft :=
  Iff.rfl

theorem ensures_modify {f : Draft → Draft} {post : Unit → Draft → Prop} :
    Ensures (modify f) draft post faulty ↔ post () (f draft) := Iff.rfl

theorem ensures_refuse {fault : GraphFault} : Ensures (refuse fault) draft post faulty ↔ faulty draft :=
  Iff.rfl

theorem ensures_throw {failure : Failure} (left : faulty draft) :
    Ensures (throw failure) draft post faulty := by
  cases failure with
  | fault _ => exact left
  | outside _ => trivial
  | exhausted => trivial

theorem run_tryCatch (work : Drafting α) (handler : Failure → Drafting α) (draft : Draft) :
    (tryCatch work handler).run.run draft =
      match work.run.run draft with
      | (.ok result, after) => (.ok result, after)
      | (.error failure, after) => (handler failure).run.run after := by
  have same : StateT.run work draft = work.run.run draft := rfl
  simp only [tryCatch, tryCatchThe, MonadExceptOf.tryCatch, ExceptT.tryCatch, ExceptT.run_mk]
  rw [StateT.run_bind, same]
  cases work.run.run draft with
  | mk outcome after => cases outcome <;> rfl

/-- What is left when a fault was caught is what catching it leaves. -/
theorem ensures_tryCatch {handler : Failure → Drafting α}
    (rethrows : ∀ failure, (∀ fault, failure ≠ .fault fault) → handler failure = throw failure)
    (ensures : Ensures work draft post fun after =>
      ∀ fault, Ensures (handler (.fault fault)) after post faulty) :
    Ensures (tryCatch work handler) draft post faulty := by
  unfold Ensures at ensures ⊢
  rw [run_tryCatch]
  cases outcome : work.run.run draft with
  | mk ended after =>
    rw [outcome] at ensures
    cases ended with
    | ok result => exact ensures
    | error failure =>
      cases failure with
      | fault fault => exact ensures fault
      | outside r =>
        simp only [rethrows (.outside r) nofun]
        trivial
      | exhausted =>
        simp only [rethrows .exhausted nofun]
        trivial

/-- Faults of merging are faults. -/
theorem Ensures.merged (ensures : Ensures work draft post faulty) :
    Ensures (ExceptT.adapt Failure.merged work) draft post faulty := by
  unfold Ensures at ensures ⊢
  rw [run_adapt]
  cases outcome : work.run.run draft with
  | mk ended after =>
    rw [outcome] at ensures
    cases ended with
    | ok result => exact ensures
    | error failure => cases failure <;> exact ensures

/-- A builder's operation is done, or it refuses and leaves the draft as it is. -/
theorem ensures_build {operation : Builder → Except GraphFault (α × Builder)}
    (refused : ∀ fault, operation draft.builder = .error fault → faulty draft)
    (done : ∀ result builder, operation draft.builder = .ok (result, builder) →
      post result { draft with builder }) : Ensures (build operation) draft post faulty := by
  have only : (build operation).run.run draft =
      (build fun _ => operation draft.builder).run.run draft := rfl
  unfold Ensures
  rw [only]
  cases outcome : operation draft.builder with
  | error fault => exact refused fault outcome
  | ok answer => exact done answer.1 answer.2 outcome

/-- Reserving never refuses. -/
theorem ensures_reserve {post : Ref → Draft → Prop} :
    Ensures reserve draft post faulty ↔
      post draft.builder.size { draft with builder := draft.builder.reserve.2 } := Iff.rfl

/-- What every step of a loop carries on, the loop carries on; and what a step leaves for its element is
carried on by the steps that follow. -/
theorem ensures_forM {xs : List γ} {step : γ → Drafting Unit} (carried : Draft → Prop)
    (left : γ → Draft → Prop) (start : carried draft)
    (each : ∀ x ∈ xs, ∀ draft, carried draft → Ensures (step x) draft
      (fun _ after => carried after ∧ left x after ∧ ∀ y, left y draft → left y after) faulty) :
    Ensures (xs.forM step) draft
      (fun _ after => carried after ∧ (∀ x ∈ xs, left x after) ∧ ∀ y, left y draft → left y after)
      faulty := by
  induction xs generalizing draft with
  | nil => exact ensures_pure.2 ⟨start, nofun, fun _ => id⟩
  | cons x rest ih =>
    have opened : (x :: rest).forM step = (step x >>= fun _ => rest.forM step) := rfl
    rw [opened, ensures_bind]
    refine (each x List.mem_cons_self draft start).mono ?_ fun _ => id
    rintro _ middle ⟨carriedMiddle, here, before⟩
    refine (ih carriedMiddle fun y later => each y (List.mem_cons_of_mem _ later)).mono ?_ fun _ => id
    rintro _ after ⟨carriedAfter, all, kept⟩
    refine ⟨carriedAfter, ?_, fun y known => kept y (before y known)⟩
    intro y listed
    rcases List.mem_cons.1 listed with rfl | later
    · exact kept y here
    · exact all y later

end Rules

end Drafting

end SchemaGraph
