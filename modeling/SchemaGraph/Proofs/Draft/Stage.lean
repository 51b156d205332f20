import SchemaGraph.Proofs.Draft.Kinds
import SchemaGraph.Proofs.Draft.Success
/-!
# Proofs.Draft.Stage -- the invariant of a draft, and what work on it may do

A `Stage` is a draft with its trace. `Stage.Sound` is the invariant of all work that replaces groups
by unification: the memory of the draft and the trace agree, nothing is made twice, and every
filled reference holds a node that may stand for what the reference stands for.

`Stage.Follows slot` is what work guarantees to those who called it: references that were there are
left alone, but for `slot` if one is given, and a reference that is new is filled unless it belongs
to a group, which is filled when the turn of the group comes. This is how nested work fills every
reference exactly once: what is pending outside stays pending, and stands for one thing only.

`Drafting.Advances` puts the two together with success. Steps that change a stage are `opened`
(a reference is reserved for an origin), `filled`, `noted` (a reference that is there stands for one
more copy), `registered` (a set of types is remembered as merged) and `reported`.
-/

namespace SchemaGraph

set_option autoImplicit false

namespace Plan

variable (plan : Plan)

/-- A type of the source that replacing the groups comes to: a member of a group, a top-level type,
or a constituent of one. -/
inductive Reached : Ref → Prop
  | member {group : List Ref} {r : Ref} : group ∈ plan.groups → r ∈ group → Reached r
  | top {r : Ref} : r ∈ plan.source.tops.values → Reached r
  | child {r child : Ref} : Reached r → child ∈ plan.source.children r → Reached child

theorem Reached.lt {plan : Plan} {r : Ref} (reached : plan.Reached r) : r < plan.source.size := by
  cases reached with
  | member listed member => exact plan.members_lt _ listed _ member
  | top top => exact plan.source.tops_lt top
  | child _ child => exact plan.source.children_lt child

/-- What a reference of the new graph may stand for: only types that are reached are copied or
merged, and no member of a group is copied. -/
def Known : Origin → Prop
  | .group index => index < plan.groups.length
  | .copy old => plan.Reached old ∧ plan.groupOf? old = none
  | .merge types => ∀ r ∈ types, plan.Reached r

/-- Where groups consist of records, a set of types that is merged has several. -/
def Plural : Origin → Prop
  | .merge types => plan.OfRecords → 1 < types.size
  | _ => True

end Plan

/-- A draft and what its references stand for. -/
structure Stage where
  draft : Draft
  trace : Trace

namespace Stage

variable (stage : Stage)

def size : Nat := stage.draft.builder.size

/-- The reference is reserved and not filled yet. -/
def Pending (n : Ref) : Prop := stage.draft.builder.slots[n]? = some none

/-- The reference is reserved for the origin and not filled yet. -/
structure Awaits (n : Ref) (origin : Origin) : Prop where
  pending : stage.Pending n
  traced : stage.trace n origin

def node? (n : Ref) : Option Node := stage.draft.builder.node? n

/-- The reference holds a primitive type without attributes. -/
def Plain (n : Ref) : Prop := ∃ p, stage.node? n = some ⟨.primitive p, .empty⟩

/-- The memory of the draft agrees with the trace, and every filled reference holds a node that may
stand for what the reference stands for. -/
structure Sound (plan : Plan) (conflate : Bool) : Prop where
  lt : ∀ {n origin}, stage.trace n origin → n < stage.size
  traced : ∀ {n}, n < stage.size → ∃ origin, stage.trace n origin
  known : ∀ {n origin}, stage.trace n origin → plan.Known origin
  plural : ∀ {n origin}, stage.trace n origin → plan.Plural origin
  /-- Only a plain primitive type stands for several types, as the copy of each. -/
  shared : ∀ {n first second}, stage.trace n first → stage.trace n second →
    first = second ∨ (first.IsCopy ∧ second.IsCopy ∧ stage.Plain n)
  group_iff : ∀ {n index},
    stage.trace n (.group index) ↔ stage.draft.groupRefs.get? index = some n
  copy_iff : ∀ {n old}, stage.trace n (.copy old) ↔ stage.draft.copied.get? old = some n
  merged : ∀ {key n}, stage.draft.unified.get? key = some n →
    ∃ types, unionKey types = key ∧ plan.Merged stage.trace types n
  remembered : ∀ {n types}, stage.trace n (.merge types) →
    (stage.draft.unified.get? (unionKey types)).isSome
  merge_unique : ∀ {n m types others}, stage.trace n (.merge types) →
    stage.trace m (.merge others) → unionKey types = unionKey others → n = m
  realised : ∀ {n origin node}, stage.trace n origin → stage.node? n = some node →
    ∃ raw, plan.Realises conflate stage.trace origin raw ∧
      node = stage.draft.builder.target.normalize raw
  interned : ∀ {p n}, stage.draft.builder.interned.get? p = some n →
    stage.node? n = some ⟨.primitive p, .empty⟩ ∧ ∀ {origin}, stage.trace n origin → origin.IsCopy

/-- What work does to the stage it started from: it leaves the references alone that were there,
but for the given one, and leaves none of its own pending, but for that one and those of groups. -/
structure Follows (slot : Option Ref) (before after : Stage) : Prop where
  size_le : before.size ≤ after.size
  slots_eq : ∀ {n}, n < before.size → some n ≠ slot →
    after.draft.builder.slots[n]? = before.draft.builder.slots[n]?
  pending : ∀ {n}, after.Pending n → before.size ≤ n →
    some n = slot ∨ ∃ index, after.trace n (.group index)
  /-- A group's reference that is new waits for the turn of the group. -/
  waits : ∀ {n index}, after.trace n (.group index) → before.size ≤ n → some n ≠ slot →
    after.Pending n
  grows : ∀ n origin, before.trace n origin → after.trace n origin
  /-- A reference that was there comes to stand for one more type only as the copy of it, and only
  if it was filled. -/
  steady : ∀ {n origin}, n < before.size → some n ≠ slot → after.trace n origin →
    before.trace n origin ∨ (origin.IsCopy ∧ ¬ before.Pending n)
  remembers : ∀ {key}, (before.draft.unified.get? key).isSome →
    (after.draft.unified.get? key).isSome
  target_eq : after.draft.builder.target = before.draft.builder.target
  tops_eq : after.draft.builder.tops = before.draft.builder.tops

variable {stage}

theorem Pending.lt {n : Ref} (pending : stage.Pending n) : n < stage.size := by
  obtain ⟨bound, _⟩ := Array.getElem?_eq_some_iff.1 pending
  exact bound

theorem Pending.node?_eq {n : Ref} (pending : stage.Pending n) : stage.node? n = none := by
  rw [node?, Builder.node?, pending]
  rfl

theorem not_pending_of_node? {n : Ref} {node : Node} (found : stage.node? n = some node) :
    ¬ stage.Pending n := by
  intro pending
  rw [pending.node?_eq] at found
  cases found

theorem pending_or_filled {n : Ref} (inside : n < stage.size) :
    stage.Pending n ∨ ∃ node, stage.node? n = some node := by
  have bound : n < stage.draft.builder.slots.size := inside
  cases slot : stage.draft.builder.slots[n] with
  | none => exact .inl (Array.getElem?_eq_some_iff.2 ⟨bound, slot⟩)
  | some node =>
    refine .inr ⟨node, ?_⟩
    rw [node?, Builder.node?, Array.getElem?_eq_getElem bound, slot]
    rfl

/-- A pending reference stands for one thing. -/
theorem Sound.only {plan : Plan} {conflate : Bool} (sound : stage.Sound plan conflate) {n : Ref}
    {first second : Origin} (pending : stage.Pending n) (one : stage.trace n first)
    (other : stage.trace n second) : first = second := by
  rcases sound.shared one other with same | ⟨_, _, p, plain⟩
  · exact same
  · rw [pending.node?_eq] at plain
    cases plain

/-- What stands for a group or for a merge stands for nothing else. -/
theorem Sound.eq_of_not_copy {plan : Plan} {conflate : Bool} (sound : stage.Sound plan conflate)
    {n : Ref} {first second : Origin} (made : ¬ first.IsCopy) (one : stage.trace n first)
    (other : stage.trace n second) : second = first := by
  rcases sound.shared one other with same | ⟨copied, _, _⟩
  · exact same.symm
  · exact absurd copied made

/-- The reference of a group is one. -/
theorem Sound.group_unique {plan : Plan} {conflate : Bool} (sound : stage.Sound plan conflate)
    {n m : Ref} {index : Nat} (one : stage.trace n (.group index))
    (other : stage.trace m (.group index)) : n = m := by
  have same := (sound.group_iff.1 one).symm.trans (sound.group_iff.1 other)
  exact Option.some.inj same

/-! ## Following -/

theorem Follows.pending_of_pending {first second : Stage} {slot : Option Ref} {n : Ref}
    (follows : first.Follows slot second) (pending : first.Pending n) (other : some n ≠ slot) :
    second.Pending n := (follows.slots_eq pending.lt other).trans pending

theorem Awaits.later {first second : Stage} {n : Ref} {origin : Origin}
    (awaits : first.Awaits n origin) (follows : first.Follows none second) :
    second.Awaits n origin where
  pending := follows.pending_of_pending awaits.pending (by simp)
  traced := follows.grows n origin awaits.traced

theorem Follows.refl {plan : Plan} {conflate : Bool} (sound : stage.Sound plan conflate)
    (slot : Option Ref) : stage.Follows slot stage where
  size_le := Nat.le_refl _
  slots_eq _ _ := rfl
  pending pending after := absurd pending.lt (Nat.not_lt.2 after)
  waits known after _ := absurd (sound.lt known) (Nat.not_lt.2 after)
  grows _ _ known := known
  steady _ _ known := .inl known
  remembers known := known
  target_eq := rfl
  tops_eq := rfl

theorem Follows.trans {slot : Option Ref} {first second third : Stage}
    (one : first.Follows slot second) (two : second.Follows slot third) :
    first.Follows slot third where
  size_le := Nat.le_trans one.size_le two.size_le
  slots_eq inside other :=
    (two.slots_eq (Nat.lt_of_lt_of_le inside one.size_le) other).trans (one.slots_eq inside other)
  pending {n} pending after := by
    by_cases old : n < second.size
    · by_cases here : some n = slot
      · exact .inl here
      · have before : second.Pending n := (two.slots_eq old here).symm.trans pending
        rcases one.pending before after with same | ⟨index, group⟩
        · exact .inl same
        · exact .inr ⟨index, two.grows _ _ group⟩
    · exact two.pending pending (Nat.not_lt.1 old)
  waits {n index} known after other := by
    by_cases old : n < second.size
    · have before : second.trace n (.group index) := by
        rcases two.steady old other known with same | ⟨copied, _⟩
        · exact same
        · exact absurd copied (Origin.not_isCopy_group index)
      exact two.pending_of_pending (one.waits before after other) other
    · exact two.waits known (Nat.not_lt.1 old) other
  grows n origin known := two.grows n origin (one.grows n origin known)
  steady {n origin} inside other known := by
    rcases two.steady (Nat.lt_of_lt_of_le inside one.size_le) other known with same | ⟨copied, filled⟩
    · exact one.steady inside other same
    · exact .inr ⟨copied, fun pending => filled (one.pending_of_pending pending other)⟩
  remembers known := two.remembers (one.remembers known)
  target_eq := two.target_eq.trans one.target_eq
  tops_eq := two.tops_eq.trans one.tops_eq

/-- Work that leaves everything alone may be part of work on one reference. -/
theorem Follows.widen {first second : Stage} (follows : first.Follows none second)
    (slot : Option Ref) : first.Follows slot second where
  size_le := follows.size_le
  slots_eq inside _ := follows.slots_eq inside (by simp)
  pending pending after := by
    rcases follows.pending pending after with none | group
    · cases none
    · exact .inr group
  waits known after _ := follows.waits known after (by simp)
  grows := follows.grows
  steady inside _ known := follows.steady inside (by simp) known
  remembers := follows.remembers
  target_eq := follows.target_eq
  tops_eq := follows.tops_eq

/-- Work on a reference of its own that has filled it leaves everything alone. -/
theorem Follows.close {first second : Stage} {slot : Ref} (follows : first.Follows (some slot) second)
    (own : first.size ≤ slot) (filled : ¬ second.Pending slot)
    (noGroup : ∀ index, ¬ second.trace slot (.group index)) : first.Follows none second := by
  have other : ∀ {n}, n < first.size → some n ≠ some slot := by
    intro n inside same
    rw [Option.some.inj same] at inside
    exact absurd inside (Nat.not_lt.2 own)
  refine { size_le := follows.size_le, slots_eq := ?slots_eq, pending := ?pending, waits := ?waits,
           grows := follows.grows, steady := ?steady, remembers := follows.remembers,
           target_eq := follows.target_eq, tops_eq := follows.tops_eq }
  case slots_eq => exact fun inside _ => follows.slots_eq inside (other inside)
  case steady => exact fun inside _ known => follows.steady inside (other inside) known
  case pending =>
    intro n pending after
    rcases follows.pending pending after with same | group
    · rw [Option.some.inj same] at pending
      exact absurd pending filled
    · exact .inr group
  case waits =>
    intro n index known after _
    by_cases here : n = slot
    · subst here
      exact absurd known (noGroup index)
    · exact follows.waits known after fun same => here (Option.some.inj same)

end Stage

end SchemaGraph
