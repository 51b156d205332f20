import SchemaGraph.Proofs.Draft.Stage
/-!
# Proofs.Draft.Steps -- the steps that work on a draft is made of

Every step keeps the invariant of a stage and says what it leaves alone. A reference enters the
trace together with the memory of the draft (`Stage.noted`), so the two never disagree; a reference
that is filled gets a node that may stand for its origin (`Stage.filled`).

`Drafting.Advances slot work stage result` says that the work succeeds from a sound stage, leaves a
sound stage that follows it, and that its result satisfies `result` there. Steps chain by
`Advances.bind` and run over lists by `Advances.mapM`.
-/

namespace SchemaGraph

set_option autoImplicit false

/-! ## Noting an origin -/

/-- The set under which an origin is remembered, if it is one. -/
def Origin.key? : Origin → Option (List Ref)
  | .merge types => some (unionKey types)
  | _ => none

/-- The draft remembers the reference for the origin. -/
def Draft.recorded (draft : Draft) (n : Ref) : Origin → Draft
  | .group index => { draft with groupRefs := draft.groupRefs.insert index n }
  | .copy old => { draft with copied := draft.copied.insert old n }
  | .merge types => { draft with unified := draft.unified.insert (unionKey types) n }

/-- The draft remembers nothing for the origin yet. -/
def Draft.Fresh (draft : Draft) : Origin → Prop
  | .group index => draft.groupRefs.get? index = none
  | .copy old => draft.copied.get? old = none
  | .merge types => draft.unified.get? (unionKey types) = none

namespace Draft

variable (draft : Draft) (n : Ref) (origin : Origin)

@[simp] theorem builder_recorded : (draft.recorded n origin).builder = draft.builder := by
  cases origin <;> rfl

theorem groupRefs_recorded (index : Nat) :
    (draft.recorded n origin).groupRefs.get? index =
      if origin = .group index then some n else draft.groupRefs.get? index := by
  cases origin with
  | group other => simp [recorded, OrderedMap.get?_insert]
  | copy old => simp [recorded]
  | merge types => simp [recorded]

theorem copied_recorded (old : Ref) :
    (draft.recorded n origin).copied.get? old =
      if origin = .copy old then some n else draft.copied.get? old := by
  cases origin with
  | group index => simp [recorded]
  | copy other => simp [recorded, OrderedMap.get?_insert]
  | merge types => simp [recorded]

theorem unified_recorded (key : List Ref) :
    (draft.recorded n origin).unified.get? key =
      if origin.key? = some key then some n else draft.unified.get? key := by
  cases origin with
  | group index => simp [recorded, Origin.key?]
  | copy old => simp [recorded, Origin.key?]
  | merge types => simp [recorded, Origin.key?, OrderedMap.get?_insert]

end Draft

namespace Stage

/-- The stage after the builder grew by a reference at most, and the reference was noted for the
origin. -/
def noted (stage : Stage) (builder : Builder) (n : Ref) (origin : Origin) : Stage where
  draft := { stage.draft with builder }.recorded n origin
  trace m o := stage.trace m o ∨ (m = n ∧ o = origin)

/-- A builder with the references of another one as they were, and one more for the origin, if it
is not one that was there. -/
structure Grown (stage : Stage) (builder : Builder) (n : Ref) (origin : Origin) : Prop where
  lt_iff : ∀ {m}, m < builder.size ↔ m < stage.size ∨ m = n
  slots_eq : ∀ {m}, m < stage.size → builder.slots[m]? = stage.draft.builder.slots[m]?
  target_eq : builder.target = stage.draft.builder.target
  tops_eq : builder.tops = stage.draft.builder.tops
  interned : ∀ {p m}, builder.interned.get? p = some m →
    stage.draft.builder.interned.get? p = some m ∨
      (m = n ∧ origin.IsCopy ∧ builder.node? n = some ⟨.primitive p, .empty⟩)

section Noted

variable {plan : Plan} {conflate : Bool} {stage : Stage} {builder : Builder} {n : Ref}
  {origin : Origin}

@[simp] theorem builder_noted : (stage.noted builder n origin).draft.builder = builder :=
  Draft.builder_recorded _ n origin

theorem Grown.node?_eq (grown : stage.Grown builder n origin) {m : Ref} (inside : m < stage.size) :
    builder.node? m = stage.node? m := by
  rw [Builder.node?, grown.slots_eq inside]
  rfl

theorem lt_of_node? {m : Ref} {node : Node} (found : stage.node? m = some node) :
    m < stage.size := Builder.lt_of_node? found

/-- What is remembered for an origin that is made once changes with what is noted for it. -/
theorem trace_noted_iff {m : Ref} {o : Origin} {memory : Option Ref}
    (agree : stage.trace m o ↔ memory = some m) (fresh : origin = o → memory = none) :
    (stage.noted builder n origin).trace m o ↔
      (if origin = o then some n else memory) = some m := by
  show (stage.trace m o ∨ (m = n ∧ o = origin)) ↔ _
  rw [agree]
  by_cases here : origin = o
  · have absent := fresh here
    subst here
    simp [absent, eq_comm]
  · have other : ¬ o = origin := fun same => here same.symm
    simp [here, other]

/-- A set of types that is not remembered was not merged, whatever the order of the types. -/
theorem Sound.unionKey_ne (sound : stage.Sound plan conflate) {m : Ref} {types others : OrderedSet Ref}
    (fresh : stage.draft.Fresh (.merge others)) (known : stage.trace m (.merge types)) :
    unionKey types ≠ unionKey others := by
  intro same
  have remembered := sound.remembered known
  rw [same] at remembered
  have absent : stage.draft.unified.get? (unionKey others) = none := fresh
  rw [absent] at remembered
  cases remembered

/-- Noting an origin that was not made before keeps the invariant: the reference is new, or it is a
plain primitive type that is the copy of one more. -/
theorem Sound.noted (sound : stage.Sound plan conflate) (grown : stage.Grown builder n origin)
    (known : plan.Known origin) (plural : plan.Plural origin) (fresh : stage.draft.Fresh origin)
    (shares : ∀ {other}, stage.trace n other → other.IsCopy ∧ origin.IsCopy ∧ stage.Plain n)
    (realises : ∀ {node}, builder.node? n = some node → ∃ raw,
      plan.Realises conflate stage.trace origin raw ∧ node = builder.target.normalize raw) :
    (stage.noted builder n origin).Sound plan conflate := by
  have grows : ∀ m o, stage.trace m o → (stage.noted builder n origin).trace m o :=
    fun m o => .inl
  have nodes : ∀ m, (stage.noted builder n origin).node? m = builder.node? m := fun m => by
    rw [Stage.node?, builder_noted]
  have plain : ∀ {m}, m < stage.size → stage.Plain m → (stage.noted builder n origin).Plain m := by
    rintro m inside ⟨p, found⟩
    exact ⟨p, by rw [nodes, grown.node?_eq inside, found]⟩
  refine { lt := ?lt, traced := ?traced, known := ?known, plural := ?plural, shared := ?shared,
           group_iff := ?group_iff, copy_iff := ?copy_iff, merged := ?merged,
           remembered := ?remembered, merge_unique := ?merge_unique, realised := ?realised,
           interned := ?interned }
  case lt =>
    rintro m o (old | ⟨rfl, rfl⟩)
    · rw [size, builder_noted]
      exact grown.lt_iff.2 (.inl (sound.lt old))
    · rw [size, builder_noted]
      exact grown.lt_iff.2 (.inr rfl)
  case traced =>
    intro m inside
    rw [size, builder_noted] at inside
    rcases grown.lt_iff.1 inside with old | rfl
    · obtain ⟨o, found⟩ := sound.traced old
      exact ⟨o, .inl found⟩
    · exact ⟨origin, .inr ⟨rfl, rfl⟩⟩
  case known =>
    rintro m o (old | ⟨rfl, rfl⟩)
    · exact sound.known old
    · exact known
  case plural =>
    rintro m o (old | ⟨rfl, rfl⟩)
    · exact sound.plural old
    · exact plural
  case shared =>
    rintro m first second (one | ⟨rfl, rfl⟩) (other | ⟨here, rfl⟩)
    · rcases sound.shared one other with same | ⟨firstCopy, secondCopy, found⟩
      · exact .inl same
      · exact .inr ⟨firstCopy, secondCopy, plain (sound.lt one) found⟩
    · subst here
      obtain ⟨oldCopy, newCopy, found⟩ := shares one
      exact .inr ⟨oldCopy, newCopy, plain (sound.lt one) found⟩
    · obtain ⟨oldCopy, newCopy, found⟩ := shares other
      exact .inr ⟨newCopy, oldCopy, plain (sound.lt other) found⟩
    · exact .inl rfl
  case group_iff =>
    intro m index
    show _ ↔ (Draft.recorded _ n origin).groupRefs.get? index = some m
    rw [Draft.groupRefs_recorded]
    refine trace_noted_iff sound.group_iff ?_
    rintro rfl
    exact fresh
  case copy_iff =>
    intro m old
    show _ ↔ (Draft.recorded _ n origin).copied.get? old = some m
    rw [Draft.copied_recorded]
    refine trace_noted_iff sound.copy_iff ?_
    rintro rfl
    exact fresh
  case merged =>
    intro key m found
    change (Draft.recorded _ n origin).unified.get? key = some m at found
    rw [Draft.unified_recorded] at found
    split at found
    · rename_i here
      cases found
      cases origin with
      | merge types =>
        exact ⟨types, Option.some.inj here, .inl ⟨types, rfl, .inr ⟨rfl, rfl⟩⟩⟩
      | group index => cases here
      | copy old => cases here
    · obtain ⟨types, same, merged⟩ := sound.merged found
      exact ⟨types, same, merged.mono grows⟩
  case remembered =>
    intro m types known
    show ((Draft.recorded _ n origin).unified.get? _).isSome
    rw [Draft.unified_recorded]
    split
    · rfl
    · rename_i other
      rcases known with old | ⟨_, rfl⟩
      · exact sound.remembered old
      · exact absurd rfl other
  case merge_unique =>
    rintro m k types others (one | ⟨rfl, here⟩) (other | ⟨rfl, there⟩) same
    · exact sound.merge_unique one other same
    · subst there
      exact absurd same (sound.unionKey_ne fresh one)
    · subst here
      exact absurd same.symm (sound.unionKey_ne fresh other)
    · rfl
  case realised =>
    intro m o node known found
    rw [nodes] at found
    rw [builder_noted]
    rcases known with old | ⟨rfl, rfl⟩
    · rw [grown.node?_eq (sound.lt old)] at found
      obtain ⟨raw, real, rfl⟩ := sound.realised old found
      exact ⟨raw, real.mono grows, by rw [grown.target_eq]⟩
    · obtain ⟨raw, real, same⟩ := realises found
      exact ⟨raw, real.mono grows, same⟩
  case interned =>
    intro p m found
    rw [builder_noted] at found
    rw [nodes]
    rcases grown.interned found with old | ⟨rfl, copied, node⟩
    · obtain ⟨node, copies⟩ := sound.interned old
      have inside := lt_of_node? node
      refine ⟨by rw [grown.node?_eq inside, node], ?_⟩
      rintro o (old | ⟨rfl, rfl⟩)
      · exact copies old
      · obtain ⟨other, traced⟩ := sound.traced inside
        exact (shares traced).2.1
    · refine ⟨node, ?_⟩
      rintro o (old | ⟨_, rfl⟩)
      · exact (shares old).1
      · exact copied

theorem Follows.noted (grown : stage.Grown builder n origin) {slot : Option Ref}
    (shares : n < stage.size → origin.IsCopy ∧ ¬ stage.Pending n)
    (opens : builder.slots[n]? = some none → some n = slot ∨ ∃ index, origin = .group index)
    (waits : ∀ {index}, origin = .group index → builder.slots[n]? = some none)
    (sound : stage.Sound plan conflate) :
    stage.Follows slot (stage.noted builder n origin) where
  size_le := by
    rw [Stage.size, Stage.size, builder_noted]
    by_contra smaller
    have inside : builder.size < builder.size :=
      grown.lt_iff.2 (.inl (Nat.not_le.1 smaller))
    exact Nat.lt_irrefl _ inside
  slots_eq inside _ := by
    rw [builder_noted]
    exact grown.slots_eq inside
  pending {m} pending after := by
    have inside := pending.lt
    rw [Stage.size, builder_noted] at inside
    rcases grown.lt_iff.1 inside with old | rfl
    · exact absurd old (Nat.not_lt.2 after)
    · rw [Pending, builder_noted] at pending
      rcases opens pending with same | ⟨index, rfl⟩
      · exact .inl same
      · exact .inr ⟨index, .inr ⟨rfl, rfl⟩⟩
  waits {m index} known after _ := by
    rcases known with old | ⟨rfl, same⟩
    · exact absurd (sound.lt old) (Nat.not_lt.2 after)
    · rw [Pending, builder_noted]
      exact waits same.symm
  grows _ _ known := .inl known
  steady {m o} inside _ known := by
    rcases known with old | ⟨rfl, rfl⟩
    · exact .inl old
    · exact .inr (shares inside)
  remembers {key} known := by
    show ((Draft.recorded _ n origin).unified.get? key).isSome
    rw [Draft.unified_recorded]
    split
    · rfl
    · exact known
  target_eq := by rw [builder_noted, grown.target_eq]
  tops_eq := by rw [builder_noted, grown.tops_eq]

end Noted

/-! ## Opening a reference -/

/-- The stage after a reference was reserved for the origin. -/
def opened (stage : Stage) (origin : Origin) : Stage :=
  stage.noted stage.draft.builder.reserve.2 stage.size origin

section Opened

variable {plan : Plan} {conflate : Bool} {stage : Stage} {origin : Origin}

theorem Grown.reserve : stage.Grown stage.draft.builder.reserve.2 stage.size origin where
  lt_iff {m} := by
    have size : stage.draft.builder.reserve.2.size = stage.size + 1 := Array.size_push _
    rw [size]
    omega
  slots_eq := Builder.slots_push
  target_eq := rfl
  tops_eq := rfl
  interned found := .inl found

theorem slots_reserve : stage.draft.builder.reserve.2.slots[stage.size]? = some none :=
  Array.getElem?_push_size

theorem pending_opened : (stage.opened origin).Pending stage.size := by
  rw [Pending, opened, builder_noted]
  exact slots_reserve

theorem trace_opened : (stage.opened origin).trace stage.size origin := .inr ⟨rfl, rfl⟩

theorem awaits_opened : (stage.opened origin).Awaits stage.size origin :=
  ⟨pending_opened, trace_opened⟩

theorem Sound.opened (sound : stage.Sound plan conflate) (known : plan.Known origin)
    (plural : plan.Plural origin) (fresh : stage.draft.Fresh origin) :
    (stage.opened origin).Sound plan conflate := by
  refine sound.noted .reserve known plural fresh ?_ ?_
  · intro other old
    exact absurd (sound.lt old) (Nat.lt_irrefl _)
  · intro node found
    rw [Builder.node?, slots_reserve] at found
    cases found

theorem Follows.opened (sound : stage.Sound plan conflate) :
    stage.Follows (some stage.size) (stage.opened origin) := by
  refine .noted .reserve ?_ (fun _ => .inl rfl) (fun _ => slots_reserve) sound
  exact fun inside => absurd inside (Nat.lt_irrefl _)

/-- A reference opened for a group may wait. -/
theorem Follows.opened_group (sound : stage.Sound plan conflate) (index : Nat) :
    stage.Follows none (stage.opened (.group index)) := by
  refine .noted .reserve ?_ (fun _ => .inr ⟨index, rfl⟩) (fun _ => slots_reserve) sound
  exact fun inside => absurd inside (Nat.lt_irrefl _)

end Opened

/-! ## Filling a reference -/

/-- The stage after the reference was filled. -/
def filled (stage : Stage) (n : Ref) (node : Node) : Stage where
  draft := { stage.draft with
    builder := { stage.draft.builder with
      slots := stage.draft.builder.slots.setIfInBounds n
        (some (stage.draft.builder.target.normalize node)) } }
  trace := stage.trace

section Filled

variable {plan : Plan} {conflate : Bool} {stage : Stage} {n : Ref} {node : Node}

theorem slots_filled {m : Ref} (other : m ≠ n) :
    (stage.filled n node).draft.builder.slots[m]? = stage.draft.builder.slots[m]? :=
  Array.getElem?_setIfInBounds_ne (Ne.symm other)

theorem node?_filled_of_ne {m : Ref} (other : m ≠ n) :
    (stage.filled n node).node? m = stage.node? m := by
  rw [node?, Builder.node?, slots_filled other]
  rfl

theorem slots_filled_self (pending : stage.Pending n) :
    (stage.filled n node).draft.builder.slots[n]? =
      some (some (stage.draft.builder.target.normalize node)) :=
  Array.getElem?_setIfInBounds_self_of_lt pending.lt

theorem node?_filled_self (pending : stage.Pending n) :
    (stage.filled n node).node? n = some (stage.draft.builder.target.normalize node) := by
  rw [node?, Builder.node?, slots_filled_self pending]
  rfl

theorem size_filled : (stage.filled n node).size = stage.size := Array.size_setIfInBounds

/-- Filling a pending reference with a node that may stand for its origin keeps the invariant. -/
theorem Sound.filled (sound : stage.Sound plan conflate) {origin : Origin}
    (awaits : stage.Awaits n origin) (realises : plan.Realises conflate stage.trace origin node) :
    (stage.filled n node).Sound plan conflate := by
  have pending := awaits.pending
  have other : ∀ {m : Ref} {old : Node}, stage.node? m = some old → m ≠ n := by
    rintro m old found rfl
    rw [pending.node?_eq] at found
    cases found
  refine { lt := ?lt, traced := ?traced, known := sound.known, plural := sound.plural,
           shared := ?shared, group_iff := sound.group_iff, copy_iff := sound.copy_iff, merged := sound.merged,
           remembered := sound.remembered, merge_unique := sound.merge_unique,
           realised := ?realised, interned := ?interned }
  case lt =>
    intro m o known
    rw [size_filled]
    exact sound.lt known
  case traced =>
    intro m inside
    rw [size_filled] at inside
    exact sound.traced inside
  case shared =>
    intro m first second one another
    rcases sound.shared one another with same | ⟨firstCopy, secondCopy, p, found⟩
    · exact .inl same
    · exact .inr ⟨firstCopy, secondCopy, p, by rw [node?_filled_of_ne (other found), found]⟩
  case realised =>
    intro m o new known found
    by_cases here : m = n
    · subst here
      rw [node?_filled_self pending] at found
      cases found
      have same : o = origin := sound.only pending known awaits.traced
      exact ⟨node, same ▸ realises, rfl⟩
    · rw [node?_filled_of_ne here] at found
      exact sound.realised known found
  case interned =>
    intro p m found
    obtain ⟨plain, copies⟩ := sound.interned found
    exact ⟨by rw [node?_filled_of_ne (other plain), plain], copies⟩

theorem Follows.filled (sound : stage.Sound plan conflate) :
    stage.Follows (some n) (stage.filled n node) where
  size_le := Nat.le_of_eq size_filled.symm
  slots_eq _ other := slots_filled fun same => other (congrArg some same)
  pending pending after := by
    have inside := pending.lt
    rw [size_filled] at inside
    exact absurd inside (Nat.not_lt.2 after)
  waits known after _ := absurd (sound.lt known) (Nat.not_lt.2 after)
  grows _ _ known := known
  steady _ _ known := .inl known
  remembers known := known
  target_eq := rfl
  tops_eq := rfl

end Filled

/-! ## Steps that add no reference -/

/-- The stage after the merge of a set of types was remembered. -/
def registered (stage : Stage) (types : OrderedSet Ref) (n : Ref) : Stage where
  draft := { stage.draft with unified := stage.draft.unified.insert (unionKey types) n }
  trace := stage.trace

/-- The stage after something was reported. -/
def reported (stage : Stage) (events : List Event) : Stage where
  draft := { stage.draft with events }
  trace := stage.trace

section Quiet

variable {plan : Plan} {conflate : Bool} {stage : Stage}

theorem unified_registered {types : OrderedSet Ref} {n : Ref} {key : List Ref} :
    (stage.registered types n).draft.unified.get? key =
      if unionKey types = key then some n else stage.draft.unified.get? key :=
  OrderedMap.get?_insert _ _ _ _

theorem Sound.registered (sound : stage.Sound plan conflate) {types : OrderedSet Ref} {n : Ref}
    (merged : plan.Merged stage.trace types n) :
    (stage.registered types n).Sound plan conflate where
  lt := sound.lt
  traced := sound.traced
  known := sound.known
  plural := sound.plural
  shared := sound.shared
  group_iff := sound.group_iff
  copy_iff := sound.copy_iff
  merged {key m} found := by
    rw [unified_registered] at found
    split at found
    · rename_i same
      cases found
      exact ⟨types, same, merged⟩
    · exact sound.merged found
  remembered known := by
    rw [unified_registered]
    split
    · rfl
    · exact sound.remembered known
  merge_unique := sound.merge_unique
  realised := sound.realised
  interned := sound.interned

theorem Follows.registered (sound : stage.Sound plan conflate) (slot : Option Ref)
    (types : OrderedSet Ref) (n : Ref) : stage.Follows slot (stage.registered types n) :=
  { Follows.refl sound slot with
    remembers := by
      intro key known
      rw [unified_registered]
      split
      · rfl
      · exact known }

theorem Sound.reported (sound : stage.Sound plan conflate) (events : List Event) :
    (stage.reported events).Sound plan conflate :=
  ⟨sound.lt, sound.traced, sound.known, sound.plural, sound.shared, sound.group_iff, sound.copy_iff,
    sound.merged, sound.remembered, sound.merge_unique, sound.realised, sound.interned⟩

theorem Follows.reported (sound : stage.Sound plan conflate) (slot : Option Ref)
    (events : List Event) : stage.Follows slot (stage.reported events) :=
  { Follows.refl sound slot with }

end Quiet

end Stage

end SchemaGraph
