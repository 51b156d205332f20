import SchemaGraph.Proofs.Draft.Success
/-!
# Proofs.Draft.Agreement -- two pieces of work side by side

`Agree rel work work' results` compares two pieces of work on two drafts. If they start from related
drafts and both have a result, their results are related by `results`, and the drafts that they leave are
related again. Nothing is said of work that fails: the bounds on nesting are those of the source, so one
of two graphs may reach its bound where the other does not, and that neither of them ever does is a
statement of its own.
-/

namespace SchemaGraph

set_option autoImplicit false

namespace Drafting

variable {α β γ δ : Type}

/-- From related drafts, the work and the other work come to related results and leave related drafts, if
both have a result. -/
def Agree (rel : Draft → Draft → Prop) (work : Drafting α) (work' : Drafting β)
    (results : α → β → Prop) : Prop :=
  ∀ draft draft', rel draft draft' → ∀ result after result' after',
    work.run.run draft = (.ok result, after) → work'.run.run draft' = (.ok result', after') →
      results result result' ∧ rel after after'

variable {rel : Draft → Draft → Prop} {work : Drafting α} {work' : Drafting β}
  {results : α → β → Prop}

theorem agree_pure {a : α} {b : β} (same : results a b) : Agree rel (pure a) (pure b) results := by
  intro draft draft' related result after result' after' run run'
  cases run
  cases run'
  exact ⟨same, related⟩

/-- Work that has a result went through its first part, with some result. -/
theorem exists_of_bind_eq_ok {next : α → Drafting γ} {draft after : Draft} {result : γ}
    (run : (work >>= next).run.run draft = (.ok result, after)) :
    ∃ first middle, work.run.run draft = (.ok first, middle) ∧
      (next first).run.run middle = (.ok result, after) := by
  rw [run_bind] at run
  cases begun : work.run.run draft with
  | mk outcome middle =>
    rw [begun] at run
    cases outcome with
    | error failure => cases run
    | ok first => exact ⟨first, middle, rfl, run⟩

theorem Agree.bind {next : α → Drafting γ} {next' : β → Drafting δ} {finals : γ → δ → Prop}
    (agree : Agree rel work work' results)
    (rest : ∀ result result', results result result' → Agree rel (next result) (next' result') finals) :
    Agree rel (work >>= next) (work' >>= next') finals := by
  intro draft draft' related result after result' after' run run'
  obtain ⟨first, middle, begun, ended⟩ := exists_of_bind_eq_ok run
  obtain ⟨first', middle', begun', ended'⟩ := exists_of_bind_eq_ok run'
  obtain ⟨same, inside⟩ := agree draft draft' related first middle first' middle' begun begun'
  exact rest first first' same middle middle' inside result after result' after' ended ended'

/-- Both go on from one result. -/
theorem Agree.bind_eq {other : Drafting α} {next : α → Drafting γ} {next' : α → Drafting δ}
    {finals : γ → δ → Prop} (agree : Agree rel work other Eq)
    (rest : ∀ result, Agree rel (next result) (next' result) finals) :
    Agree rel (work >>= next) (other >>= next') finals := by
  refine agree.bind ?_
  rintro result _ rfl
  exact rest result

theorem Agree.map {f : α → γ} {f' : β → δ} {finals : γ → δ → Prop}
    (agree : Agree rel work work' results)
    (widen : ∀ result result', results result result' → finals (f result) (f' result')) :
    Agree rel (f <$> work) (f' <$> work') finals := by
  rw [← bind_pure_comp, ← bind_pure_comp]
  exact agree.bind fun result result' same => agree_pure (widen result result' same)

/-! ## Steps -/

theorem agree_get : Agree rel get get rel := by
  intro draft draft' related result after result' after' run run'
  cases run
  cases run'
  exact ⟨related, related⟩

theorem agree_modify {f f' : Draft → Draft}
    (keeps : ∀ draft draft', rel draft draft' → rel (f draft) (f' draft')) :
    Agree rel (modify f) (modify f') Eq := by
  intro draft draft' related result after result' after' run run'
  cases run
  cases run'
  exact ⟨rfl, keeps draft draft' related⟩

theorem agree_throw {failure : Failure} : Agree rel (throw failure : Drafting α) work' results := by
  intro _ _ _ _ _ _ _ run
  cases run

theorem agree_throw_right {failure : Failure} : Agree rel work (throw failure : Drafting β) results := by
  intro _ _ _ _ _ _ _ _ run'
  cases run'

/-- A builder's operation agrees with itself if related drafts have one builder. -/
theorem agree_build {operation : Builder → Except GraphFault (α × Builder)}
    (builders : ∀ draft draft', rel draft draft' → draft'.builder = draft.builder)
    (keeps : ∀ draft draft' builder, rel draft draft' →
      rel { draft with builder } { draft' with builder }) :
    Agree rel (build operation) (build operation) Eq := by
  intro draft draft' related result after result' after' run run'
  have only : ∀ start : Draft, (build operation).run.run start =
      (build fun _ => operation start.builder).run.run start := fun _ => rfl
  rw [only] at run run'
  rw [builders draft draft' related] at run'
  cases outcome : operation draft.builder with
  | error fault =>
    rw [outcome] at run
    cases run
  | ok answer =>
    rw [outcome] at run run'
    cases run
    cases run'
    exact ⟨rfl, keeps draft draft' answer.2 related⟩

theorem eq_ok_of_adapt {rename : Failure → Failure} {draft after : Draft} {result : α}
    (run : (ExceptT.adapt rename work).run.run draft = (.ok result, after)) :
    work.run.run draft = (.ok result, after) := by
  rw [run_adapt] at run
  cases outcome : work.run.run draft with
  | mk ended left =>
    rw [outcome] at run
    cases ended with
    | ok other => exact run
    | error failure => cases run

theorem Agree.adapt {rename rename' : Failure → Failure} (agree : Agree rel work work' results) :
    Agree rel (ExceptT.adapt rename work) (ExceptT.adapt rename' work') results := by
  intro draft draft' related result after result' after' run run'
  exact agree draft draft' related result after result' after' (eq_ok_of_adapt run) (eq_ok_of_adapt run')

/-! ## Loops -/

/-- A loop over a list and one over its image, if each turn agrees. -/
theorem agree_forM {f : γ → δ} {xs : List γ} {step : γ → Drafting Unit} {step' : δ → Drafting Unit}
    (each : ∀ x ∈ xs, Agree rel (step x) (step' (f x)) Eq) :
    Agree rel (xs.forM step) ((xs.map f).forM step') Eq := by
  induction xs with
  | nil => exact agree_pure rfl
  | cons x rest ih =>
    have opened : (x :: rest).forM step = (step x >>= fun _ => rest.forM step) := rfl
    have opened' : ((x :: rest).map f).forM step' = (step' (f x) >>= fun _ => (rest.map f).forM step') := rfl
    rw [opened, opened']
    exact (each x List.mem_cons_self).bind_eq fun _ => ih fun y later => each y (List.mem_cons_of_mem _ later)

/-- Turns that come to one result make one list of results. -/
theorem agree_mapM {f : γ → δ} {xs : List γ} {step : γ → Drafting α} {step' : δ → Drafting α}
    (each : ∀ x ∈ xs, Agree rel (step x) (step' (f x)) Eq) :
    Agree rel (xs.mapM step) ((xs.map f).mapM step')
      fun ys ys' => ys = ys' ∧ ys.length = xs.length := by
  induction xs with
  | nil => exact agree_pure ⟨rfl, rfl⟩
  | cons x rest ih =>
    rw [List.map_cons, List.mapM_cons, List.mapM_cons]
    refine (each x List.mem_cons_self).bind_eq fun y => ?_
    refine (ih fun z later => each z (List.mem_cons_of_mem _ later)).bind ?_
    rintro ys _ ⟨rfl, length⟩
    exact agree_pure ⟨rfl, congrArg Nat.succ length⟩

end Drafting

end SchemaGraph
