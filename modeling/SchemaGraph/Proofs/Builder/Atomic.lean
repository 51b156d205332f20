import SchemaGraph.Builder.InPlace
import SchemaGraph.Proofs.Builder.Runs
/-!
# Proofs.Builder.Atomic -- what one command does to a builder, and what no run undoes

A command is refused for one of five reasons (`Builder.Refuses`), or it does one of eight things
(`Builder.Does`); `Builder.step_cases` says so of every builder. A builder that is overwritten step by
step comes to the same end (`Building.run_perform`): every reason is found before the first write, so a
command that is refused leaves the builder as it was. What holds over runs is read off the things that a
command may do: none of them moves a node or takes a reference back (`Builder.Does.keeps`,
`Builder.Does.size_le`).
-/

namespace SchemaGraph

set_option autoImplicit false

namespace Builder

section Statements

variable (b : Builder)

/-- Why a command is refused. Constituents are looked at before the slot. -/
inductive Refuses : Command → GraphFault → Prop
  | unknownConstituent {command : Command} {given : Node} {slot : Option Ref} {r : Ref} :
      command.addition? = some (given, slot) → given.children.find? (fun r => b.size ≤ r) = some r →
      Refuses command (.unknownConstituent r)
  | unknownForward {command : Command} {given : Node} {r : Ref} :
      command.addition? = some (given, some r) → (∀ child ∈ given.children, child < b.size) →
      b.size ≤ r → Refuses command (.unknownForward r)
  | filledForward {command : Command} {given old : Node} {r : Ref} :
      command.addition? = some (given, some r) → (∀ child ∈ given.children, child < b.size) →
      b.node? r = some old → Refuses command (.filledForward r)
  | notPrimitive {kind : Kind} {attributes : Bag} {slot : Option Ref} : kind.primitive? = none →
      Refuses (.addPrimitive kind attributes slot) (.notPrimitive kind)
  | unknownTop {name : String} {r : Ref} : b.size ≤ r → Refuses (.addTop name r) (.unknownTop r)

/-- What a command does that is not refused: its answer, and the builder after it. A node is added to the
empty slot that is given, or behind the others; only a plain primitive type that was added before is not
added again. -/
inductive Does : Command → Reply → Builder → Prop
  | reserve : Does .reserve (.ref b.size) { b with slots := b.slots.push none }
  | fill {command : Command} {given : Node} {r : Ref} : command.addition? = some (given, some r) →
      (∀ child ∈ given.children, child < b.size) → b.slots[r]? = some none →
      Does command (.ref r)
        { b with slots := b.slots.setIfInBounds r (some (b.target.normalize given)) }
  | push {command : Command} {given : Node} : command.addition? = some (given, none) →
      (∀ child ∈ given.children, child < b.size) → (b.target.normalize given).plain? = none →
      Does command (.ref b.size) { b with slots := b.slots.push (some (b.target.normalize given)) }
  | intern {command : Command} {given : Node} {p : Primitive} : command.addition? = some (given, none) →
      (b.target.normalize given).plain? = some p → b.interned.get? p = none →
      Does command (.ref b.size)
        { b with
          slots := b.slots.push (some (b.target.normalize given))
          interned := b.interned.insert p b.size }
  | again {command : Command} {given : Node} {p : Primitive} {r : Ref} :
      command.addition? = some (given, none) → (b.target.normalize given).plain? = some p →
      b.interned.get? p = some r → Does command (.ref r) b
  | name {name : String} {r : Ref} : r < b.size →
      Does (.addTop name r) .done { b with tops := b.tops.insert name r }
  | isResolved (r : Ref) : Does (.isResolved r) (.flag (b.isResolved r)) b
  | node (r : Ref) : Does (.node r) (.node (b.node? r)) b

/-- The command is refused and the builder stays as it is, or it is done. -/
def Settles (command : Command) (outcome : Except GraphFault Reply × Builder) : Prop :=
  (∃ fault, b.Refuses command fault ∧ outcome = (.error fault, b)) ∨
    ∃ reply after, b.Does command reply after ∧ outcome = (.ok reply, after)

end Statements

variable {b after : Builder} {command : Command} {reply : Reply}

/-! ## One command -/

theorem step_of_error {fault : GraphFault} (failed : b.perform command = .error fault) :
    b.step command = (.error fault, b) := by rw [step, failed]

theorem step_of_ok (done : b.perform command = .ok (reply, after)) :
    b.step command = (.ok reply, after) := by rw [step, done]

/-- A command to add a node does what adding it does. -/
theorem perform_of_addition {given : Node} {slot : Option Ref}
    (asked : command.addition? = some (given, slot)) :
    b.perform command = (b.add given slot).map fun added => (.ref added.1, added.2) := by
  cases command with
  | add node place =>
    cases asked
    show (b.add given slot >>= fun added => .ok (Reply.ref added.1, added.2)) = _
    cases b.add given slot <;> rfl
  | addPrimitive kind attributes place =>
    obtain ⟨p, primitive, same⟩ := Option.map_eq_some_iff.1 asked
    cases same
    show (b.addPrimitive kind attributes slot >>= fun added => .ok (Reply.ref added.1, added.2)) = _
    have same : b.addPrimitive kind attributes slot = b.add ⟨.primitive p, attributes⟩ slot := by
      rw [addPrimitive, primitive]
    rw [same]
    cases b.add ⟨.primitive p, attributes⟩ slot <;> rfl
  | _ => cases asked

/-- A slot that is not there, holds a node, or is reserved. -/
theorem slot_cases (b : Builder) (r : Ref) :
    (b.size ≤ r ∧ b.slots[r]? = none) ∨ (∃ old, b.node? r = some old ∧ b.slots[r]? = some (some old)) ∨
      b.slots[r]? = some none := by
  cases slot : b.slots[r]? with
  | none => exact .inl ⟨Array.getElem?_eq_none_iff.1 slot, rfl⟩
  | some filled =>
    cases filled with
    | none => exact .inr (.inr rfl)
    | some old => exact .inr (.inl ⟨old, node?_of_slots slot, rfl⟩)

/-- Adding a node is refused or done. -/
theorem settles_add {given : Node} {slot : Option Ref}
    (asked : command.addition? = some (given, slot)) : b.Settles command (b.step command) := by
  have performed := perform_of_addition (b := b) asked
  have refused : ∀ {fault}, b.add given slot = .error fault → b.Refuses command fault →
      b.Settles command (b.step command) := fun failed reason =>
    .inl ⟨_, reason, step_of_error (by rw [performed, failed]; rfl)⟩
  have done : ∀ {r after}, b.add given slot = .ok (r, after) → b.Does command (.ref r) after →
      b.Settles command (b.step command) := fun added does =>
    .inr ⟨_, _, does, step_of_ok (by rw [performed, added]; rfl)⟩
  cases unknown : given.children.find? fun r => b.size ≤ r with
  | some r => exact refused (by rw [add, unknown]) (.unknownConstituent asked unknown)
  | none =>
    have inside : ∀ child ∈ given.children, child < b.size := by
      intro child member
      simpa using List.find?_eq_none.1 unknown child member
    cases slot with
    | some r =>
      obtain ⟨outside, absent⟩ | ⟨old, found, filled⟩ | reserved := b.slot_cases r
      · exact refused (by simp only [add, unknown, Builder.fill, absent]; rfl)
          (.unknownForward asked inside outside)
      · exact refused (by simp only [add, unknown, Builder.fill, filled]; rfl)
          (.filledForward asked inside found)
      · exact done (by simp only [add, unknown, Builder.fill, reserved]; rfl) (.fill asked inside reserved)
    | none =>
      cases plain : (b.target.normalize given).plain? with
      | none => exact done (by simp only [add, unknown, append, plain]; rfl) (.push asked inside plain)
      | some p =>
        cases known : b.interned.get? p with
        | some r => exact done (by simp only [add, unknown, append, plain, known]) (.again asked plain known)
        | none =>
          exact done (by simp only [add, unknown, append, plain, known]; rfl) (.intern asked plain known)

/-- Every command is refused, and leaves the builder as it is, or it is done. -/
theorem step_cases (b : Builder) (command : Command) : b.Settles command (b.step command) := by
  cases command with
  | reserve => exact .inr ⟨_, _, .reserve, rfl⟩
  | add given slot => exact settles_add rfl
  | addPrimitive kind attributes slot =>
    cases primitive : kind.primitive? with
    | none =>
      refine .inl ⟨_, .notPrimitive primitive, step_of_error ?_⟩
      simp only [perform, addPrimitive, primitive]
      rfl
    | some p => exact settles_add (by rw [Command.addition?, primitive]; rfl)
  | addTop name r =>
    by_cases inside : r < b.size
    · exact .inr ⟨_, _, .name inside, step_of_ok (by simp only [perform, addTop, if_pos inside]; rfl)⟩
    · exact .inl ⟨_, .unknownTop (Nat.not_lt.1 inside),
        step_of_error (by simp only [perform, addTop, if_neg inside]; rfl)⟩
  | isResolved r => exact .inr ⟨_, _, .isResolved r, rfl⟩
  | node r => exact .inr ⟨_, _, .node r, rfl⟩

/-! ## What no command undoes -/

theorem Does.size_le (does : b.Does command reply after) : b.size ≤ after.size := by
  have pushed : ∀ slot : Option Node, b.slots.size ≤ (b.slots.push slot).size := fun slot => by
    rw [Array.size_push]
    exact Nat.le_succ _
  cases does with
  | reserve => exact pushed none
  | fill _ _ _ => exact Nat.le_of_eq Array.size_setIfInBounds.symm
  | push _ _ _ => exact pushed _
  | intern _ _ _ => exact pushed _
  | again _ _ _ => exact Nat.le_refl _
  | name _ => exact Nat.le_refl _
  | isResolved _ => exact Nat.le_refl _
  | node _ => exact Nat.le_refl _

/-- A node stays where it was put: slots are added behind the others, and only an empty one is filled. -/
theorem Does.keeps (does : b.Does command reply after) {r : Ref} {node : Node}
    (found : b.node? r = some node) : after.node? r = some node := by
  have pushed : ∀ slot : Option Node, ((b.slots.push slot)[r]?).join = some node := by
    intro slot
    rw [slots_push (lt_of_node? found)]
    exact found
  cases does with
  | reserve => exact pushed none
  | @fill _ given s _ _ empty =>
    have other : s ≠ r := by
      rintro rfl
      rw [node?, empty] at found
      cases found
    rw [node?, Array.getElem?_setIfInBounds_ne other]
    exact found
  | push _ _ _ => exact pushed _
  | intern _ _ _ => exact pushed _
  | again _ _ _ => exact found
  | name _ => exact found
  | isResolved _ => exact found
  | node _ => exact found

/-- What every command keeps is kept by every run. -/
theorem run_induction {motive : Builder → Prop} (commands : List Command) (start : motive b)
    (step : ∀ {b command reply after}, Does b command reply after → motive b → motive after) :
    motive (b.run commands).2 := by
  induction commands generalizing b with
  | nil => exact start
  | cons command rest ih =>
    refine ih (b := (b.step command).2) ?_
    obtain ⟨fault, _, outcome⟩ | ⟨reply, after, does, outcome⟩ := b.step_cases command
    · rw [outcome]
      exact start
    · rw [outcome]
      exact step does start

end Builder

/-! ## Building in place -/

namespace Building

variable (b : Builder)

/-- Steps that begin with a look at the builder. -/
theorem run_get_bind {α : Type} (next : Builder → Building α) :
    (get >>= next).run.run b = (next b).run.run b := rfl

theorem run_bind {α β : Type} (steps : Building α) (next : α → Building β) :
    (steps >>= next).run.run b =
      match steps.run.run b with
      | (.ok value, after) => (next value).run.run after
      | (.error fault, after) => (.error fault, after) := by
  rw [ExceptT.run_bind, StateT.run_bind]
  rcases steps.run.run b with ⟨_ | _, _⟩ <;> rfl

/-- What ends in a reply ends as its steps do. -/
theorem run_map {α β : Type} (f : α → β) (steps : Building α) :
    (f <$> steps).run.run b = ((steps.run.run b).1.map f, (steps.run.run b).2) := by
  rw [ExceptT.run_map]
  rfl

theorem run_push (slot : Option Node) :
    (push slot).run.run b = (.ok b.size, { b with slots := b.slots.push slot }) := by
  have last : (b.slots.push slot).size - 1 = b.slots.size := by rw [Array.size_push, Nat.add_sub_cancel]
  exact congrArg (fun r => (Except.ok r, { b with slots := b.slots.push slot })) last

/-- Filling looks at the slot, and writes only if that is empty. -/
theorem run_fill (node : Node) (r : Ref) :
    (fill node r).run.run b =
      match b.fill node r with
      | .ok after => (.ok r, after)
      | .error fault => (.error fault, b) := by
  rw [fill, run_get_bind, Builder.fill]
  rcases b.slots[r]? with _ | (_ | old) <;> rfl

/-- Appending is never refused. -/
theorem run_append (node : Node) :
    (append node).run.run b = (.ok (b.append node).1, (b.append node).2) := by
  cases plain : node.plain? with
  | none =>
    simp only [append, Builder.append, plain]
    exact run_push b (some node)
  | some p =>
    simp only [append, Builder.append, plain]
    rw [run_get_bind]
    cases b.interned.get? p with
    | some r => rfl
    | none =>
      simp only
      rw [run_bind, run_push]
      rfl

/-- The constituents are looked at before the slot, and the slot before anything is written. -/
theorem run_add (node : Node) (slot : Option Ref) :
    (add node slot).run.run b =
      match b.add node slot with
      | .ok (r, after) => (.ok r, after)
      | .error fault => (.error fault, b) := by
  rw [add, run_get_bind, Builder.add]
  cases node.children.find? fun r => b.size ≤ r with
  | some r => rfl
  | none =>
    cases slot with
    | none => exact run_append b _
    | some r =>
      refine (run_fill b _ r).trans ?_
      simp only
      cases b.fill (b.target.normalize node) r <;> rfl

theorem run_addPrimitive (kind : Kind) (attributes : Bag) (slot : Option Ref) :
    (addPrimitive kind attributes slot).run.run b =
      match b.addPrimitive kind attributes slot with
      | .ok (r, after) => (.ok r, after)
      | .error fault => (.error fault, b) := by
  rw [addPrimitive, Builder.addPrimitive]
  cases kind.primitive? with
  | none => rfl
  | some p => exact run_add b _ slot

theorem run_addTop (name : String) (r : Ref) :
    (addTop name r).run.run b =
      match b.addTop name r with
      | .ok after => (.ok (), after)
      | .error fault => (.error fault, b) := by
  rw [addTop, run_get_bind, Builder.addTop]
  by_cases inside : r < b.size
  · rw [if_pos inside, if_pos inside]
    rfl
  · rw [if_neg inside, if_neg inside]
    rfl

/-- A command carried out in place does what it does to a builder that is replaced. -/
theorem run_perform (command : Builder.Command) : (perform command).run.run b = b.step command := by
  cases command with
  | reserve =>
    refine (run_map b Builder.Reply.ref (push none)).trans ?_
    rw [run_push]
    rfl
  | add node slot =>
    refine (run_map b Builder.Reply.ref (add node slot)).trans ?_
    rw [run_add, Builder.step, Builder.perform]
    cases b.add node slot <;> rfl
  | addPrimitive kind attributes slot =>
    refine (run_map b Builder.Reply.ref (addPrimitive kind attributes slot)).trans ?_
    rw [run_addPrimitive, Builder.step, Builder.perform]
    cases b.addPrimitive kind attributes slot <;> rfl
  | addTop name r =>
    refine (run_bind b (addTop name r) fun _ => pure Builder.Reply.done).trans ?_
    rw [run_addTop, Builder.step, Builder.perform]
    cases b.addTop name r <;> rfl
  | isResolved r => rfl
  | node r => rfl

/-- So does a run of commands. -/
theorem run_performAll (commands : List Builder.Command) : (performAll commands).run b = b.run commands := by
  induction commands generalizing b with
  | nil => rfl
  | cons command rest ih =>
    have first : (perform command).run.run b = b.step command := run_perform b command
    have others := ih (b.step command).2
    rw [performAll] at others
    rw [performAll, List.mapM_cons, StateT.run_bind, first]
    show (StateT.run (List.mapM _ rest >>= _) (b.step command).2 : Id _) = _
    rw [StateT.run_bind, others]
    rfl

/-- What a builder that is overwritten can be relied on for. -/
structure Reliable (b : Builder) : Prop where
  /-- A command is refused, and nothing was written, or it does one thing. -/
  settles : ∀ command, b.Settles command ((perform command).run.run b)
  /-- The table of plain primitive types points to their slots. -/
  interned : ∀ {p r}, b.interned.get? p = some r → b.node? r = some ⟨.primitive p, .empty⟩
  /-- Whatever comes later, a reference that is there stays there. -/
  valid : ∀ later r, r < b.size → r < ((performAll later).run b).2.size
  /-- Whatever comes later, a node stays where it is. -/
  keeps : ∀ later r node, b.node? r = some node → ((performAll later).run b).2.node? r = some node

/-- After any commands, some of which may have been refused, a builder that is overwritten is the one
that these commands lead to, and can be relied on: the next command is refused and leaves slots, names and
the table of plain primitive types as they were, or it fills the empty slot that is given, or adds one slot,
or finds a plain primitive type that is there, and no later command moves a node or takes a reference
back. -/
theorem performAll_reliable (target : Target) (commands : List Builder.Command) :
    (performAll commands).run (Builder.start target) = (Builder.start target).run commands ∧
      Reliable ((performAll commands).run (Builder.start target)).2 := by
  refine ⟨run_performAll _ commands, ?_⟩
  rw [run_performAll]
  have holds := Builder.holds_transcript target commands
  generalize ((Builder.start target).run commands).2 = b at holds
  refine ⟨fun command => ?_, holds.node?_of_interned, fun later r inside => ?_, fun later r node found => ?_⟩
  · rw [run_perform]
    exact b.step_cases command
  · rw [run_performAll]
    exact Builder.run_induction (motive := fun after => r < after.size) later inside
      fun does before => before.trans_le does.size_le
  · rw [run_performAll]
    exact Builder.run_induction (motive := fun after => after.node? r = some node) later found
      fun does before => does.keeps before

end Building

end SchemaGraph
