import SchemaGraph.Combine
import SchemaGraph.Draft.Program
import SchemaGraph.Proofs.Draft.Copying
/-!
# Proofs.Draft.Scripted -- replacements made of commands, and what they leave alone

A group may be replaced by any work that consists of the commands of a draft: it may look at the draft to
decide how to go on, fail, and catch the faults of a part of it (`Drafting.Scripted`). The programs of
commands are of this form, and so is merging (`Program.scripted_replacement`,
`Settings.scripted_mergeClique`). Whatever such work does, and whether it succeeds or ends with a fault,
what was copied stays copied (`Drafting.Scripted.keeps`): there is one lemma for each command, and the
unification of a set of types is taken apart into the same commands.
-/

namespace SchemaGraph

set_option autoImplicit false

namespace Drafting

/-! ## Work that keeps copies -/

/-- If the draft has no copy in progress, the work leaves a draft that has none either and holds and
remembers all that was there, with a result or with a fault. -/
def Keeps {α : Type} (plan : Plan) (work : Drafting α) : Prop :=
  ∀ draft : Draft, draft.Copying plan [] → Ensures work draft
    (fun _ after => after.Copying plan [] ∧ draft.Extends after)
    fun after => after.Copying plan [] ∧ draft.Extends after

section Rules

variable {α β : Type} {plan : Plan} {work : Drafting α}

theorem keeps_pure (a : α) : Keeps plan (pure a : Drafting α) := fun draft copying => ⟨copying, .refl draft⟩

theorem keeps_get : Keeps plan (get : Drafting Draft) := fun draft copying => ⟨copying, .refl draft⟩

theorem keeps_throw (failure : Failure) : Keeps plan (throw failure : Drafting α) :=
  fun draft copying => ensures_throw ⟨copying, .refl draft⟩

theorem keeps_report (event : Event) : Keeps plan (report event) := fun draft copying =>
  have same : draft.Extends { draft with events := event :: draft.events } := ⟨.refl _, id, id⟩
  ⟨copying.later same id .inl, same⟩

theorem Keeps.bind {next : α → Drafting β} (first : Keeps plan work) (rest : ∀ a, Keeps plan (next a)) :
    Keeps plan (work >>= next) := by
  intro draft copying
  refine ensures_bind.2 ((first draft copying).mono ?_ fun _ => id)
  rintro a middle ⟨copyingMiddle, before⟩
  refine (rest a middle copyingMiddle).mono ?_ ?_
  · rintro _ after ⟨copyingAfter, later⟩
    exact ⟨copyingAfter, before.trans later⟩
  · rintro after ⟨copyingAfter, later⟩
    exact ⟨copyingAfter, before.trans later⟩

theorem Keeps.map {f : α → β} (keeps : Keeps plan work) : Keeps plan (f <$> work) := by
  rw [← bind_pure_comp]
  exact keeps.bind fun a => keeps_pure (f a)

theorem Keeps.merged (keeps : Keeps plan work) : Keeps plan (ExceptT.adapt Failure.merged work) :=
  fun draft copying => (keeps draft copying).merged

/-- What a fault leaves may be worked on further. -/
theorem Keeps.tryCatch {handler : Failure → Drafting α}
    (rethrows : ∀ failure, (∀ fault, failure ≠ .fault fault) → handler failure = throw failure)
    (keeps : Keeps plan work) (handles : ∀ fault, Keeps plan (handler (.fault fault))) :
    Keeps plan (tryCatch work handler) := by
  intro draft copying
  refine ensures_tryCatch rethrows ((keeps draft copying).mono (fun _ _ => id) ?_)
  rintro middle ⟨copyingMiddle, before⟩ fault
  refine (handles fault middle copyingMiddle).mono ?_ ?_
  · rintro _ after ⟨copyingAfter, later⟩
    exact ⟨copyingAfter, before.trans later⟩
  · rintro after ⟨copyingAfter, later⟩
    exact ⟨copyingAfter, before.trans later⟩

theorem keeps_mapM {xs : List α} {step : α → Drafting β} (each : ∀ x ∈ xs, Keeps plan (step x)) :
    Keeps plan (xs.mapM step) := by
  induction xs with
  | nil => exact keeps_pure []
  | cons x rest ih =>
    rw [List.mapM_cons]
    refine (each x List.mem_cons_self).bind fun y => ?_
    refine (ih fun z later => each z (List.mem_cons_of_mem _ later)).bind fun ys => keeps_pure _

theorem keeps_forM {xs : List α} {step : α → Drafting Unit} (each : ∀ x ∈ xs, Keeps plan (step x)) :
    Keeps plan (xs.forM step) := by
  induction xs with
  | nil => exact keeps_pure ()
  | cons x rest ih =>
    have opened : (x :: rest).forM step = (step x >>= fun _ => rest.forM step) := rfl
    rw [opened]
    exact (each x List.mem_cons_self).bind fun _ => ih fun z later => each z (List.mem_cons_of_mem _ later)

/-- Whatever a builder does that holds what it held, and its refusals change nothing. -/
theorem keeps_build {operation : Builder → Except GraphFault (α × Builder)}
    (holds : ∀ {draft : Draft} {result after}, draft.Copying plan [] →
      operation draft.builder = .ok (result, after) → draft.builder.Extends after) :
    Keeps plan (build operation) := by
  intro draft copying
  refine ensures_build (fun _ _ => ⟨copying, .refl draft⟩) fun result builder done => ?_
  have extends_ : draft.Extends { draft with builder } := ⟨holds copying done, id, id⟩
  exact ⟨copying.later extends_ id .inl, extends_⟩

end Rules

/-! ## Commands -/

section Commands

variable (plan : Plan)

theorem keeps_reserve : Keeps plan reserve := by
  refine keeps_build fun {draft _ _} _ done => ?_
  cases done
  exact draft.appends_reserve.builder

theorem keeps_add (node : Node) (slot : Option Ref) : Keeps plan (add node slot) :=
  keeps_build fun copying done => Builder.extends_add copying.interned done

theorem keeps_addPrimitive (kind : Kind) (attributes : Bag) (slot : Option Ref) :
    Keeps plan (addPrimitive kind attributes slot) := by
  refine keeps_build fun copying done => ?_
  unfold Builder.addPrimitive at done
  split at done
  · cases done
  · exact Builder.extends_add copying.interned done

theorem keeps_groupRef (group : Nat) : Keeps plan (groupRef group) := by
  intro draft copying
  refine (ensures_groupRef copying group).mono ?_ fun _ => False.elim
  rintro r after ⟨copyingAfter, appends, _⟩
  exact ⟨copyingAfter, appends.toExtends⟩

theorem keeps_lookupGroup (types : OrderedSet Ref) : Keeps plan (lookupGroup plan types) := by
  unfold lookupGroup
  cases plan.commonGroup? types.toList with
  | none => exact keeps_pure none
  | some group => exact (keeps_groupRef plan group).map

theorem keeps_lookupUnion (types : OrderedSet Ref) : Keeps plan (lookupUnion types) :=
  keeps_get.bind fun _ => keeps_pure _

theorem keeps_registerUnion (types : OrderedSet Ref) (new : Ref) : Keeps plan (registerUnion types new) := by
  intro draft copying
  have same : draft.Extends { draft with unified := draft.unified.insert (unionKey types) new } :=
    ⟨.refl _, id, id⟩
  exact ⟨copying.later same id .inl, same⟩

/-- Copying a type that is not there is a fault that changes nothing. -/
theorem keeps_copy (old : Ref) : Keeps plan (copy plan old) := by
  intro draft copying
  by_cases inside : old < plan.source.size
  · refine (ensures_copyWithin copying inside).mono ?_ fun _ => False.elim
    rintro new after ⟨copyingAfter, appends, _⟩
    exact ⟨copyingAfter, appends.toExtends⟩
  · have absent : plan.source.node? old = none := plan.source.node?_eq_none_iff.2 (Nat.not_lt.1 inside)
    simp only [copy, copyWithin, absent]
    exact ⟨copying, .refl draft⟩

end Commands

/-! ## Unification -/

section Unification

variable (plan : Plan) {inner : OrderedSet Ref → Drafting Ref}

theorem keeps_combineAttributes (registry : Registry) (refs : List Ref) :
    Keeps plan (combineAttributes plan registry refs) :=
  (keeps_forM fun kind _ => keeps_report (.dropped kind)).bind fun _ => keeps_pure _

theorem keeps_alone? (refs : OrderedSet Ref) (slot : Ref) : Keeps plan (alone? plan refs slot) := by
  unfold alone?
  split
  · exact (keeps_lookupGroup plan refs).bind fun _ => keeps_pure _
  · exact keeps_pure none

theorem keeps_known? (types : OrderedSet Ref) : Keeps plan (known? plan types) := by
  refine (keeps_lookupGroup plan types).bind fun group => ?_
  cases group with
  | some r => exact keeps_pure _
  | none =>
    refine (keeps_lookupUnion plan types).bind fun union => ?_
    cases union with
    | some r => exact keeps_pure _
    | none =>
      simp only
      split
      · exact (keeps_copy plan _).map
      · exact keeps_pure none

theorem keeps_checkInside (types : OrderedSet Ref) : Keeps plan (checkInside plan types) := by
  unfold checkInside
  split
  · exact keeps_throw _
  · exact keeps_pure ()

variable (keeps : ∀ types, Keeps plan (inner types))

include keeps

theorem keeps_buildRecord (records : List Record) : Keeps plan (buildRecord inner records) := by
  refine Keeps.bind (keeps_mapM fun merged _ => ?_) fun _ => keeps_pure _
  exact (keeps merged.types).bind fun _ => keeps_pure _

theorem keeps_buildKind (kind : Kind) (refs : OrderedSet Ref) (attributes : Bag) (slot : Ref) :
    Keeps plan (buildKind plan inner kind refs attributes slot) := by
  cases kind with
  | enum => exact keeps_add plan _ _
  | array => exact (keeps _).bind fun _ => keeps_add plan _ _
  | map => exact (keeps _).bind fun _ => keeps_add plan _ _
  | record => exact (keeps_buildRecord plan keeps _).bind fun _ => keeps_add plan _ _
  | union => exact keeps_throw _
  | _ => exact keeps_addPrimitive plan _ _ _

theorem keeps_buildMember (registry : Registry) (slot : Ref) (part : Kind × OrderedSet Ref) :
    Keeps plan (buildMember plan registry inner slot part) := by
  refine (keeps_alone? plan part.2 slot).bind fun alone => ?_
  cases alone with
  | some single => exact keeps_copy plan single
  | none =>
    refine (keeps_lookupUnion plan part.2).bind fun union => ?_
    cases union with
    | some r => exact keeps_pure r
    | none =>
      refine (keeps_reserve plan).bind fun member => ?_
      refine (keeps_registerUnion plan part.2 member).bind fun _ => ?_
      refine (keeps_combineAttributes plan registry part.2.toList).bind fun attributes => ?_
      exact keeps_buildKind plan keeps part.1 part.2 attributes member

theorem keeps_buildParts (registry : Registry) (attributes : Bag) (slot : Ref)
    (parts : List (Kind × OrderedSet Ref)) :
    Keeps plan (buildParts plan registry inner attributes slot parts) := by
  unfold buildParts
  split
  · exact keeps_buildKind plan keeps _ _ attributes slot
  · refine (keeps_mapM fun part _ => keeps_buildMember plan keeps registry slot part).bind fun _ => ?_
    exact keeps_add plan _ _

theorem keeps_unifyInto (unifier : Unifier) (types : OrderedSet Ref) (attributes : Bag) (slot : Ref) :
    Keeps plan (unifyInto plan unifier inner types attributes slot) := by
  refine (keeps_registerUnion plan types slot).bind fun _ => ?_
  refine (keeps_checkInside plan types).bind fun _ => ?_
  refine (keeps_report _).bind fun _ => ?_
  exact keeps_buildParts plan keeps unifier.registry attributes slot _

omit keeps in
theorem keeps_unifyWithin (unifier : Unifier) (depth : Nat) (types : OrderedSet Ref) (attributes : Bag)
    (slot? : Option Ref) : Keeps plan (unifyWithin plan unifier depth types attributes slot?) := by
  induction depth generalizing types attributes slot? with
  | zero => exact keeps_throw _
  | succ depth ih =>
    unfold unifyWithin
    have nested : ∀ types, Keeps plan (combineAttributes plan unifier.registry types.toList >>= fun bag =>
        unifyWithin plan unifier depth types bag none) := fun types =>
      (keeps_combineAttributes plan unifier.registry _).bind fun bag => ih types bag none
    simp only
    split
    · exact keeps_throw _
    · cases slot? with
      | some slot => exact keeps_unifyInto plan nested unifier types attributes slot
      | none =>
        refine (keeps_known? plan types).bind fun known => ?_
        cases known with
        | some r => exact keeps_pure r
        | none =>
          refine (keeps_reserve plan).bind fun slot => ?_
          exact keeps_unifyInto plan nested unifier types attributes slot

omit keeps in
theorem keeps_unify (unifier : Unifier) (types : OrderedSet Ref) (attributes : Bag) (slot? : Option Ref) :
    Keeps plan (unify plan unifier types attributes slot?) :=
  (keeps_unifyWithin plan unifier _ types attributes slot?).merged

end Unification

/-! ## Work made of commands -/

/-- Work on a draft that consists of commands: what was found so far may decide how to go on, faults may
be raised, and the faults of a part of the work may be caught. -/
inductive Scripted (plan : Plan) : {α : Type} → Drafting α → Prop
  | done {α : Type} (a : α) : Scripted plan (pure a)
  | fail {α : Type} (failure : Failure) : Scripted plan (throw failure : Drafting α)
  | bind {α β : Type} {work : Drafting α} {next : α → Drafting β} :
      Scripted plan work → (∀ a, Scripted plan (next a)) → Scripted plan (work >>= next)
  | rescue {α : Type} {work : Drafting α} {handler : Failure → Drafting α} :
      (∀ failure, (∀ fault, failure ≠ .fault fault) → handler failure = throw failure) →
      Scripted plan work → (∀ fault, Scripted plan (handler (.fault fault))) →
      Scripted plan (tryCatch work handler)
  | look : Scripted plan get
  | report (event : Event) : Scripted plan (report event)
  | reserve : Scripted plan reserve
  | add (node : Node) (slot : Option Ref) : Scripted plan (add node slot)
  | addPrimitive (kind : Kind) (attributes : Bag) (slot : Option Ref) :
      Scripted plan (addPrimitive kind attributes slot)
  | copy (old : Ref) : Scripted plan (copy plan old)
  | lookupGroup (types : OrderedSet Ref) : Scripted plan (lookupGroup plan types)
  | lookupUnion (types : OrderedSet Ref) : Scripted plan (lookupUnion types)
  | registerUnion (types : OrderedSet Ref) (new : Ref) : Scripted plan (registerUnion types new)
  | unify (unifier : Unifier) (types : OrderedSet Ref) (attributes : Bag) (slot? : Option Ref) :
      Scripted plan (unify plan unifier types attributes slot?)

section Scripts

variable {α β : Type} {plan : Plan} {work : Drafting α}

/-- Work made of commands leaves copies as they are. -/
theorem Scripted.keeps (scripted : Scripted plan work) : Keeps plan work := by
  induction scripted with
  | done a => exact keeps_pure a
  | fail failure => exact keeps_throw failure
  | bind _ _ first rest => exact first.bind rest
  | rescue rethrows _ _ keeps handles => exact keeps.tryCatch rethrows handles
  | look => exact keeps_get
  | report event => exact keeps_report event
  | reserve => exact keeps_reserve plan
  | add node slot => exact keeps_add plan node slot
  | addPrimitive kind attributes slot => exact keeps_addPrimitive plan kind attributes slot
  | copy old => exact keeps_copy plan old
  | lookupGroup types => exact keeps_lookupGroup plan types
  | lookupUnion types => exact keeps_lookupUnion plan types
  | registerUnion types new => exact keeps_registerUnion plan types new
  | unify unifier types attributes slot? => exact keeps_unify plan unifier types attributes slot?

theorem Scripted.map {f : α → β} (scripted : Scripted plan work) : Scripted plan (f <$> work) := by
  rw [← bind_pure_comp]
  exact scripted.bind fun a => .done (f a)

theorem scripted_forM {xs : List α} {step : α → Drafting Unit} (each : ∀ x, Scripted plan (step x)) :
    Scripted plan (xs.forM step) := by
  induction xs with
  | nil => exact .done ()
  | cons x rest ih => exact (each x).bind fun _ => ih

theorem scripted_perform (unifier : Unifier) (command : Command) :
    Scripted plan (perform plan unifier command) := by
  cases command with
  | unify types attributes slot? => exact (Scripted.unify unifier types attributes slot?).map
  | copy old => exact (Scripted.copy old).map
  | lookupGroup types => exact (Scripted.lookupGroup types).map
  | lookupUnion types => exact (Scripted.lookupUnion types).map
  | registerUnion types new => exact (Scripted.registerUnion types new).bind fun _ => .done Answer.done
  | reserve => exact Scripted.reserve.map
  | add node slot => exact (Scripted.add node slot).map
  | addPrimitive kind attributes slot => exact (Scripted.addPrimitive kind attributes slot).map
  | node r => exact Scripted.look.bind fun _ => .done _

theorem scripted_attempt (unifier : Unifier) (command : Command) :
    Scripted plan (attempt plan unifier command) := by
  refine .rescue (fun failure other => ?_) (scripted_perform unifier command) fun fault => .done _
  cases failure with
  | fault fault => exact absurd rfl (other fault)
  | outside r => rfl
  | exhausted => rfl

end Scripts

end Drafting

/-! ## The replacements there are -/

/-- Whatever group it is given, the replacement is made of commands. -/
def Replacement.Scripted (replacement : Replacement) : Prop :=
  ∀ plan members slot, Drafting.Scripted plan (replacement plan members slot)

theorem Unifier.scripted_replacement (unifier : Unifier) : unifier.replacement.Scripted :=
  fun plan members _ =>
    have attributes : Drafting.Scripted plan (Drafting.combineAttributes plan unifier.registry members) :=
      (Drafting.scripted_forM fun kind => .report (.dropped kind)).bind fun _ => .done _
    attributes.bind fun _ => .unify unifier _ _ _

theorem Program.scripted_run (program : Program) (plan : Plan) (unifier : Unifier) :
    Drafting.Scripted plan (program.run plan unifier) := by
  induction program with
  | done new => exact .done new
  | fail fault => exact .fail _
  | perform command next ih =>
    refine (Drafting.scripted_attempt unifier command).bind fun answer => ?_
    exact (Drafting.Scripted.report _).bind fun _ => ih answer

/-- Programs of commands are made of commands. -/
theorem Program.scripted_replacement (unifier : Unifier) (programs : List Ref → Option (Ref → Program)) :
    (Program.replacement unifier programs).Scripted := by
  intro plan members slot
  refine (Drafting.Scripted.report .opened).bind fun _ => ?_
  cases programs members with
  | some program => exact (program slot).scripted_run plan unifier
  | none => exact unifier.scripted_replacement plan members slot

/-- Merging a clique is made of commands. -/
theorem Settings.scripted_mergeClique (settings : Settings) (registry : Registry) :
    (settings.mergeClique registry).Scripted := fun plan members slot =>
  (Drafting.Scripted.report _).bind fun _ =>
    (settings.unifier registry).scripted_replacement plan members slot

end SchemaGraph
