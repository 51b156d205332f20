import SchemaGraph.Draft.Replacement
import SchemaGraph.Proofs.Ordered
/-!
# Proofs.Draft.Success -- work on a draft that succeeds

`Succeeds work draft post` says that the work ends without a failure when it starts from the
draft, and that its result and the draft it leaves satisfy `post`. It is a statement of total
correctness: there is no result to assume. Steps chain by `succeeds_bind`, so a function on
drafts is followed through without opening the monad again.

* `succeeds_build_iff`: what a builder does is done to the draft.
* `succeeds_forM_report`: reports change nothing but the list of events.
-/

namespace SchemaGraph

set_option autoImplicit false

namespace Builder

variable {b : Builder} {r : Ref} {node : Node}

theorem node?_of_slots (slot : b.slots[r]? = some (some node)) : b.node? r = some node := by
  rw [node?, slot]
  rfl

theorem lt_of_node? (found : b.node? r = some node) : r < b.size := by
  refine Nat.lt_of_not_le fun outside => ?_
  have absent : b.slots[r]? = none := Array.getElem?_eq_none_iff.2 outside
  rw [node?, absent] at found
  cases found

/-- A reference more changes no node. -/
theorem slots_push {slot : Option Node} (inside : r < b.size) :
    (b.slots.push slot)[r]? = b.slots[r]? :=
  (Array.getElem?_push_lt inside).trans (Array.getElem?_eq_getElem inside).symm

/-- A node over references that are there fills a reference that is reserved. -/
theorem add_of_pending {slot : Ref}
    (inside : ∀ r ∈ node.children, r < b.size) (pending : b.slots[slot]? = some none) :
    b.add node (some slot) = .ok (slot,
      { b with slots := b.slots.setIfInBounds slot (some (b.target.normalize node)) }) := by
  have all : node.children.find? (fun r => decide (b.size ≤ r)) = none := by
    rw [List.find?_eq_none]
    intro child member
    simpa using inside child member
  simp only [add, all, fill, pending]
  rfl

theorem exists_slots (complete : ∀ slot ∈ b.slots.toList, slot ≠ none) :
    ∃ nodes : Array Node, b.slots = nodes.map some := by
  obtain ⟨nodes, list⟩ := exists_map_some complete
  refine ⟨nodes.toArray, ?_⟩
  apply Array.toList_inj.1
  rw [list, Array.toList_map]

theorem node?_of_complete {nodes : Array Node} (slots : b.slots = nodes.map some) (r : Ref) :
    b.node? r = nodes[r]? := by
  rw [node?, slots, Array.getElem?_map]
  cases nodes[r]? <;> rfl

/-- If every reference is filled, the nodes make the graph. -/
theorem finish?_of_complete {nodes : Array Node} (slots : b.slots = nodes.map some) :
    b.finish? = Graph.ofNodes? nodes b.tops := by
  have complete : b.slots.findIdx? Option.isNone = none := by
    rw [slots, Array.findIdx?_eq_none_iff]
    intro slot member
    obtain ⟨node, _, rfl⟩ := Array.mem_map.1 member
    rfl
  have unwrapped : b.slots.filterMap id = nodes := by
    rw [slots]
    apply Array.toList_inj.1
    simp
  rw [finish?, complete]
  simp only [unwrapped]

/-- Else the first reference that is not filled is reported. -/
theorem finish?_of_reserved {slot : Ref} (reserved : b.slots.findIdx? Option.isNone = some slot) :
    b.finish? = .error (.unresolved slot) ∧ slot < b.size ∧ b.node? slot = none ∧
      ∀ earlier < slot, b.node? earlier ≠ none := by
  have finished : b.finish? = .error (.unresolved slot) := by rw [finish?, reserved]
  obtain ⟨bound, empty, before⟩ := Array.findIdx?_eq_some_iff_getElem.1 reserved
  refine ⟨finished, bound, ?_, fun earlier less => ?_⟩
  · rw [node?, Array.getElem?_eq_getElem bound, Option.isNone_iff_eq_none.1 empty]
    rfl
  · have inside : earlier < b.slots.size := Nat.lt_trans less bound
    rw [node?, Array.getElem?_eq_getElem inside]
    intro absent
    exact before earlier less (Option.isNone_iff_eq_none.2 absent)

/-- The references are all filled, or one of them is the first that is not. -/
theorem complete_or_reserved (b : Builder) :
    (∃ nodes : Array Node, b.slots = nodes.map some) ∨
      ∃ slot, b.slots.findIdx? Option.isNone = some slot := by
  cases found : b.slots.findIdx? Option.isNone with
  | some slot => exact .inr ⟨slot, rfl⟩
  | none =>
    refine .inl (exists_slots ?_)
    rintro slot member rfl
    have filled := Array.findIdx?_eq_none_iff.1 found none (Array.mem_toList_iff.1 member)
    cases filled

end Builder

namespace Drafting

variable {α β : Type}

/-- The work ends without a failure, in a result and a draft that satisfy the condition. -/
def Succeeds (work : Drafting α) (draft : Draft) (post : α → Draft → Prop) : Prop :=
  ∃ result next, work.run.run draft = (.ok result, next) ∧ post result next

theorem Succeeds.mono {work : Drafting α} {draft : Draft} {post wider : α → Draft → Prop}
    (success : Succeeds work draft post) (widen : ∀ result next, post result next → wider result next) :
    Succeeds work draft wider := by
  obtain ⟨result, next, run, holds⟩ := success
  exact ⟨result, next, run, widen result next holds⟩

/-! ## Steps -/

theorem succeeds_pure {a : α} {draft : Draft} {post : α → Draft → Prop} :
    Succeeds (pure a) draft post ↔ post a draft := by
  constructor
  · rintro ⟨result, next, run, holds⟩
    cases run
    exact holds
  · intro holds
    exact ⟨a, draft, rfl, holds⟩

/-- Work that is followed by more ends with its own failure, or as the rest does. -/
theorem run_bind (work : Drafting α) (next : α → Drafting β) (draft : Draft) :
    (work >>= next).run.run draft =
      match work.run.run draft with
      | (.ok result, after) => (next result).run.run after
      | (.error failure, after) => (.error failure, after) := by
  rw [ExceptT.run_bind, StateT.run_bind]
  cases work.run.run draft with
  | mk outcome after => cases outcome <;> rfl

theorem succeeds_bind {work : Drafting α} {next : α → Drafting β} {draft : Draft}
    {post : β → Draft → Prop} :
    Succeeds (work >>= next) draft post ↔
      Succeeds work draft fun result after => Succeeds (next result) after post := by
  constructor
  · rintro ⟨result, final, ran, holds⟩
    rw [run_bind] at ran
    cases first : work.run.run draft with
    | mk outcome after =>
      rw [first] at ran
      cases outcome with
      | error failure => cases ran
      | ok middle => exact ⟨middle, after, first, result, final, ran, holds⟩
  · rintro ⟨middle, after, first, result, final, ran, holds⟩
    refine ⟨result, final, ?_, holds⟩
    rw [run_bind, first]
    exact ran

theorem succeeds_map {work : Drafting α} {f : α → β} {draft : Draft} {post : β → Draft → Prop} :
    Succeeds (f <$> work) draft post ↔
      Succeeds work draft fun result after => post (f result) after := by
  rw [← bind_pure_comp, succeeds_bind]
  constructor
  · exact fun success => success.mono fun _ _ => succeeds_pure.1
  · exact fun success => success.mono fun _ _ => succeeds_pure.2

theorem succeeds_get {draft : Draft} {post : Draft → Draft → Prop} :
    Succeeds get draft post ↔ post draft draft := by
  constructor
  · rintro ⟨result, next, run, holds⟩
    cases run
    exact holds
  · intro holds
    exact ⟨draft, draft, rfl, holds⟩

theorem succeeds_modify {f : Draft → Draft} {draft : Draft} {post : Unit → Draft → Prop} :
    Succeeds (modify f) draft post ↔ post () (f draft) := by
  constructor
  · rintro ⟨result, next, run, holds⟩
    cases run
    exact holds
  · intro holds
    exact ⟨(), f draft, rfl, holds⟩

theorem succeeds_report {event : Event} {draft : Draft} {post : Unit → Draft → Prop} :
    Succeeds (report event) draft post ↔ post () { draft with events := event :: draft.events } :=
  succeeds_modify

/-- Work succeeds on a builder's operation exactly when the operation does. -/
theorem succeeds_build_iff {operation : Builder → Except GraphFault (α × Builder)} {draft : Draft}
    {post : α → Draft → Prop} :
    Succeeds (build operation) draft post ↔
      ∃ result builder, operation draft.builder = .ok (result, builder) ∧
        post result { draft with builder } := by
  have only : (build operation).run.run draft =
      (build fun _ => operation draft.builder).run.run draft := rfl
  unfold Succeeds
  rw [only]
  cases operation draft.builder with
  | error fault =>
    have run : (build fun _ => Except.error (α := α × Builder) fault).run.run draft =
        (.error (.fault (.graph fault)), draft) := rfl
    rw [run]
    constructor
    · rintro ⟨_, _, failed, _⟩
      cases failed
    · rintro ⟨_, _, failed, _⟩
      cases failed
  | ok answer =>
    obtain ⟨result, builder⟩ := answer
    have run : (build fun _ => .ok (result, builder)).run.run draft =
        (.ok result, { draft with builder }) := rfl
    rw [run]
    constructor
    · rintro ⟨_, _, same, holds⟩
      cases same
      exact ⟨result, builder, rfl, holds⟩
    · rintro ⟨_, _, same, holds⟩
      cases same
      exact ⟨result, { draft with builder }, rfl, holds⟩

theorem succeeds_reserve {draft : Draft} {post : Ref → Draft → Prop} :
    Succeeds reserve draft post ↔
      post draft.builder.size { draft with builder := draft.builder.reserve.2 } := by
  rw [reserve, succeeds_build_iff]
  constructor
  · rintro ⟨_, _, same, holds⟩
    cases same
    exact holds
  · exact fun holds => ⟨_, _, rfl, holds⟩

/-- Reports do not count: what succeeds for every record of reports succeeds behind a list of
them. -/
theorem succeeds_forM_report {γ : Type} {xs : List γ} {event : γ → Event} {draft : Draft}
    {post : Unit → Draft → Prop} (holds : ∀ events, post () { draft with events }) :
    Succeeds (xs.forM fun x => report (event x)) draft post := by
  induction xs generalizing draft with
  | nil => exact succeeds_pure.2 (holds draft.events)
  | cons x rest ih =>
    have opened : ((x :: rest).forM fun x => report (event x)) =
        (report (event x) >>= fun _ => rest.forM fun x => report (event x)) := rfl
    rw [opened, succeeds_bind, succeeds_report]
    exact ih fun events => holds events

theorem run_adapt (work : Drafting α) (rename : Failure → Failure) (draft : Draft) :
    (ExceptT.adapt rename work).run.run draft =
      ((work.run.run draft).1.mapError rename, (work.run.run draft).2) := rfl

/-- Renaming failures changes nothing of work that succeeds. -/
theorem Succeeds.adapt {work : Drafting α} {rename : Failure → Failure} {draft : Draft}
    {post : α → Draft → Prop} (success : Succeeds work draft post) :
    Succeeds (ExceptT.adapt rename work) draft post := by
  obtain ⟨result, next, run, holds⟩ := success
  refine ⟨result, next, ?_, holds⟩
  rw [run_adapt, run]
  rfl

end Drafting

/-- Replacing groups has a result only if the groups are a plan and the work on it has that result. -/
theorem Graph.exists_run_of_replaceGroups {source h : Graph} {label : String} {target : Target}
    {groups : List (List Ref)} {replacement : Replacement}
    (done : (source.replaceGroups label target groups replacement).result = .ok h) :
    ∃ (plan : Plan) (final : Draft), Plan.ofGroups? source groups = .ok plan ∧
      (Drafting.replaceAll plan label replacement).run.run (.start target) = (.ok h, final) := by
  unfold Graph.replaceGroups at done
  cases planned : Plan.ofGroups? source groups with
  | error fault =>
    rw [planned] at done
    cases done
  | ok plan =>
    rw [planned] at done
    cases run : (Drafting.replaceAll plan label replacement).run.run (.start target) with
    | mk result final =>
      simp only [run] at done
      subst done
      exact ⟨plan, final, rfl, run⟩

end SchemaGraph
