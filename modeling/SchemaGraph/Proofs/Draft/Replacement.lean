import SchemaGraph.Proofs.Draft.Advances
import SchemaGraph.Proofs.Draft.Copy
import SchemaGraph.Proofs.Draft.Ensures
import SchemaGraph.Proofs.Draft.Kinds
/-!
# Proofs.Draft.Replacement -- replacing groups makes a graph

Groups are filled in turn (`Stage.TurnsFrom`): a group's reference may be reserved long before, and
it is pending until its turn. After the last turn nothing is pending, members of unions differ in
kind, and the draft is a graph. `Plan.Replaces` says what its types stand for.

* `Replacement.Fills`: what a replacement has to do for this, of which unification is one.
* `Replacement.FillsWith`: the same, where the types that it makes for groups are known to have some
  property.
* `Graph.replaceGroups_succeeds`: replacing groups of records succeeds, and the new graph replaces
  the groups.
* `Graph.replaces_of_replaceGroups`: whatever the groups consist of, a graph that comes of replacing them
  replaces them.
-/

namespace SchemaGraph

set_option autoImplicit false

/-- The replacement fills the reference of a group in its turn. -/
def Replacement.Fills (conflate : Bool) (replacement : Replacement) : Prop :=
  ∀ {plan : Plan} {stage : Stage} {index : Nat} {members : List Ref} {slot : Ref},
    stage.Sound plan conflate → plan.groups[index]? = some members →
    stage.Awaits slot (.group index) →
    Drafting.Advances plan conflate (some slot) (replacement plan members slot) stage
      fun r after => r = slot ∧ ¬ after.Pending slot

/-- What holds of the type of a group stays true as more is made. -/
def Persistent (made : Trace → Nat → Ty → Prop) : Prop :=
  ∀ trace wider : Trace, (∀ n origin, trace n origin → wider n origin) →
    ∀ index type, made trace index type → made wider index type

/-- The replacement fills the reference of a group of the plan in its turn, with a type that has the
property. -/
def Replacement.FillsWith (plan : Plan) (conflate : Bool) (made : Trace → Nat → Ty → Prop)
    (replacement : Replacement) : Prop :=
  ∀ (stage : Stage) (index : Nat) (members : List Ref) (slot : Ref),
    stage.Sound plan conflate → plan.groups[index]? = some members →
    stage.Awaits slot (.group index) →
    Drafting.Advances plan conflate (some slot) (replacement plan members slot) stage
      fun r after => r = slot ∧ ¬ after.Pending slot ∧
        ∀ node, after.node? slot = some node → made after.trace index node.type

theorem Replacement.Fills.fillsWith {conflate : Bool} {replacement : Replacement}
    (fills : replacement.Fills conflate) (plan : Plan) :
    replacement.FillsWith plan conflate fun _ _ _ => True := fun _ _ _ _ sound listed awaits =>
  Drafting.Advances.mono (fills sound listed awaits)
    fun _ _ _ _ filled => ⟨filled.1, filled.2, fun _ _ => trivial⟩

/-! ## Turns -/

namespace Stage

/-- The groups before the given one are filled, and only groups from it on are pending. -/
structure TurnsFrom (stage : Stage) (k : Nat) : Prop where
  past : ∀ {index}, index < k → ∃ n, stage.trace n (.group index)
  waiting : ∀ {n index}, k ≤ index → stage.trace n (.group index) → stage.Pending n
  only : ∀ {n}, stage.Pending n → ∃ index, k ≤ index ∧ stage.trace n (.group index)

/-- Besides, the types of the groups before the given one have the property. -/
structure TurnsMaking (stage : Stage) (made : Trace → Nat → Ty → Prop) (k : Nat) : Prop
    extends stage.TurnsFrom k where
  makes : ∀ {n index node}, index < k → stage.trace n (.group index) → stage.node? n = some node →
    made stage.trace index node.type

section Turns

variable {plan : Plan} {conflate : Bool} {first second : Stage} {k : Nat} {slot : Option Ref}
  {made : Trace → Nat → Ty → Prop}

/-- A reference that was there belongs to a group only if it did before. -/
theorem Follows.group_of_lt (follows : first.Follows slot second) {n : Ref} {index : Nat}
    (inside : n < first.size) (other : some n ≠ slot) (traced : second.trace n (.group index)) :
    first.trace n (.group index) := by
  rcases follows.steady inside other traced with same | ⟨copied, _⟩
  · exact same
  · exact absurd copied (Origin.not_isCopy_group index)

theorem TurnsFrom.later (turns : first.TurnsFrom k) (follows : first.Follows none second)
    (sound : second.Sound plan conflate) (before : first.Sound plan conflate) :
    second.TurnsFrom k where
  past earlier := by
    obtain ⟨n, traced⟩ := turns.past earlier
    exact ⟨n, follows.grows _ _ traced⟩
  waiting {n index} turn traced := by
    by_cases old : n < first.size
    · have traced := follows.group_of_lt old (by simp) traced
      exact follows.pending_of_pending (turns.waiting turn traced) (by simp)
    · exact follows.waits traced (Nat.not_lt.1 old) (by simp)
  only {n} pending := by
    by_cases old : n < first.size
    · have still : first.Pending n := (follows.slots_eq old (by simp)).symm.trans pending
      obtain ⟨index, turn, traced⟩ := turns.only still
      exact ⟨index, turn, follows.grows _ _ traced⟩
    · rcases follows.pending pending (Nat.not_lt.1 old) with none | ⟨index, traced⟩
      · cases none
      · refine ⟨index, Nat.not_lt.1 fun earlier => old ?_, traced⟩
        obtain ⟨m, known⟩ := turns.past earlier
        have same := sound.group_unique (follows.grows _ _ known) traced
        rw [← same]
        exact before.lt known

theorem TurnsFrom.next (turns : first.TurnsFrom k) {n : Ref} (awaits : first.Awaits n (.group k))
    (follows : first.Follows (some n) second) (sound : second.Sound plan conflate)
    (before : first.Sound plan conflate) (filled : ¬ second.Pending n) :
    second.TurnsFrom (k + 1) where
  past {index} earlier := by
    rcases Nat.lt_succ_iff_lt_or_eq.1 earlier with done | rfl
    · obtain ⟨m, traced⟩ := turns.past done
      exact ⟨m, follows.grows _ _ traced⟩
    · exact ⟨n, follows.grows _ _ awaits.traced⟩
  waiting {m index} turn traced := by
    have other : some m ≠ some n := by
      intro same
      rw [Option.some.inj same] at traced
      have here := sound.eq_of_not_copy (Origin.not_isCopy_group k)
        (follows.grows _ _ awaits.traced) traced
      cases here
      exact Nat.lt_irrefl _ turn
    by_cases old : m < first.size
    · have traced := follows.group_of_lt old other traced
      exact follows.pending_of_pending (turns.waiting (Nat.le_of_succ_le turn) traced) other
    · exact follows.waits traced (Nat.not_lt.1 old) other
  only {m} pending := by
    have other : some m ≠ some n := by
      intro same
      rw [Option.some.inj same] at pending
      exact filled pending
    by_cases old : m < first.size
    · have still : first.Pending m := (follows.slots_eq old other).symm.trans pending
      obtain ⟨index, turn, traced⟩ := turns.only still
      refine ⟨index, Nat.lt_of_le_of_ne turn ?_, follows.grows _ _ traced⟩
      rintro rfl
      exact other (congrArg some (before.group_unique traced awaits.traced))
    · rcases follows.pending pending (Nat.not_lt.1 old) with same | ⟨index, traced⟩
      · exact absurd same other
      · refine ⟨index, Nat.not_lt.1 fun earlier => old ?_, traced⟩
        rcases Nat.lt_succ_iff_lt_or_eq.1 earlier with done | rfl
        · obtain ⟨i, known⟩ := turns.past done
          have same := sound.group_unique (follows.grows _ _ known) traced
          rw [← same]
          exact before.lt known
        · have same := sound.group_unique (follows.grows _ _ awaits.traced) traced
          exact absurd (congrArg some same.symm) other

/-- What was made of the groups so far stays, as work leaves their references alone. -/
theorem TurnsMaking.kept (turns : first.TurnsMaking made k)
    (persists : Persistent made)
    (follows : first.Follows slot second) (sound : second.Sound plan conflate)
    (before : first.Sound plan conflate)
    (apart : ∀ {n index}, index < k → first.trace n (.group index) → some n ≠ slot)
    {n : Ref} {index : Nat} {node : Node} (earlier : index < k)
    (traced : second.trace n (.group index)) (found : second.node? n = some node) :
    made second.trace index node.type := by
  obtain ⟨m, known⟩ := turns.past earlier
  have same := sound.group_unique (follows.grows _ _ known) traced
  subst same
  have slots := follows.slots_eq (before.lt known) (apart earlier known)
  have there : first.node? m = some node := by
    rw [← found, node?, node?, Builder.node?, Builder.node?, slots]
  exact persists _ _ follows.grows _ _ (turns.makes earlier known there)

theorem TurnsMaking.later (turns : first.TurnsMaking made k)
    (persists : Persistent made)
    (follows : first.Follows none second) (sound : second.Sound plan conflate)
    (before : first.Sound plan conflate) : second.TurnsMaking made k where
  toTurnsFrom := turns.toTurnsFrom.later follows sound before
  makes earlier traced found :=
    turns.kept persists follows sound before (fun _ _ => by simp) earlier traced found

theorem TurnsMaking.next (turns : first.TurnsMaking made k)
    (persists : Persistent made)
    {n : Ref} (awaits : first.Awaits n (.group k)) (follows : first.Follows (some n) second)
    (sound : second.Sound plan conflate) (before : first.Sound plan conflate)
    (filled : ¬ second.Pending n)
    (here : ∀ node, second.node? n = some node → made second.trace k node.type) :
    second.TurnsMaking made (k + 1) where
  toTurnsFrom := turns.toTurnsFrom.next awaits follows sound before filled
  makes {m index node} earlier traced found := by
    rcases Nat.lt_succ_iff_lt_or_eq.1 earlier with past | rfl
    · refine turns.kept persists follows sound before ?_ past traced found
      rintro i other early known same
      cases same
      cases before.eq_of_not_copy (Origin.not_isCopy_group k) awaits.traced known
      exact Nat.lt_irrefl _ early
    · cases sound.group_unique (follows.grows _ _ awaits.traced) traced
      exact here node found

/-- After the last turn nothing is pending. -/
theorem TurnsFrom.not_pending (turns : first.TurnsFrom plan.groups.length)
    (sound : first.Sound plan conflate) (n : Ref) : ¬ first.Pending n := by
  intro pending
  obtain ⟨index, turn, traced⟩ := turns.only pending
  have inside : index < plan.groups.length := sound.known traced
  exact Nat.lt_irrefl _ (Nat.lt_of_lt_of_le inside turn)

/-- Before any work nothing stands for anything. -/
def start (target : Target) : Stage := ⟨Draft.start target, fun _ _ => False⟩

theorem Sound.start (target : Target) : (Stage.start target).Sound plan conflate where
  lt known := known.elim
  traced inside := absurd inside (Nat.not_lt_zero _)
  known known := known.elim
  plural known := known.elim
  shared known _ := known.elim
  group_iff := ⟨False.elim, fun found => by cases found⟩
  copy_iff := ⟨False.elim, fun found => by cases found⟩
  merged found := by cases found
  remembered known := known.elim
  merge_unique known _ _ := known.elim
  realised known _ := known.elim
  interned found := by cases found

theorem TurnsMaking.start (target : Target) : (Stage.start target).TurnsMaking made 0 where
  past earlier := absurd earlier (Nat.not_lt_zero _)
  waiting _ known := known.elim
  only pending := absurd pending.lt (Nat.not_lt_zero _)
  makes earlier := absurd earlier (Nat.not_lt_zero _)

/-- The stage after a name was bound. -/
def named (stage : Stage) (name : String) (r : Ref) : Stage where
  draft := { stage.draft with builder := { stage.draft.builder with
    tops := stage.draft.builder.tops.insert name r } }
  trace := stage.trace

/-- The invariant does not read the names. -/
theorem Sound.named (sound : first.Sound plan conflate) (name : String) (r : Ref) :
    (first.named name r).Sound plan conflate :=
  ⟨sound.lt, sound.traced, sound.known, sound.plural, sound.shared, sound.group_iff, sound.copy_iff,
    sound.merged, sound.remembered, sound.merge_unique, sound.realised, sound.interned⟩

theorem TurnsMaking.named (turns : first.TurnsMaking made k) (name : String) (r : Ref) :
    (first.named name r).TurnsMaking made k := ⟨⟨turns.past, turns.waiting, turns.only⟩, turns.makes⟩

end Turns

end Stage

namespace Drafting

variable {plan : Plan} {conflate : Bool} {label : String} {replacement : Replacement}
  {made : Trace → Nat → Ty → Prop}

/-- Work that leads from a stage to another one. -/
def Leads (plan : Plan) (conflate : Bool) (work : Drafting Unit) (before : Stage)
    (result : Stage → Prop) : Prop :=
  Succeeds work before.draft fun _ draft => ∃ after : Stage, after.draft = draft ∧
    after.Sound plan conflate ∧ after.draft.builder.target = before.draft.builder.target ∧
    result after

section Making

variable (persists : Persistent made)

include persists

/-- A group is filled in its turn. -/
theorem leads_replaceGroup (fills : replacement.FillsWith plan conflate made) {stage : Stage}
    (sound : stage.Sound plan conflate) {index : Nat} (turns : stage.TurnsMaking made index)
    {members : List Ref} (listed : plan.groups[index]? = some members) :
    Leads plan conflate (replaceGroup plan label replacement (members, index)) stage
      fun after => after.TurnsMaking made (index + 1) ∧
        after.draft.builder.tops = stage.draft.builder.tops := by
  have inside : index < plan.groups.length := (List.getElem?_eq_some_iff.1 listed).1
  refine succeeds_bind.2 (Succeeds.mono (advances_groupRef sound inside) ?_)
  rintro slot _ ⟨first, rfl, firstSound, reserves, traced⟩
  have firstTurns := turns.later persists reserves firstSound sound
  have awaits : first.Awaits slot (.group index) :=
    ⟨firstTurns.waiting (Nat.le_refl _) traced, traced⟩
  refine succeeds_bind.2 (Succeeds.mono (fills _ _ _ _ firstSound listed awaits) ?_)
  rintro new _ ⟨second, rfl, secondSound, follows, rfl, filled, makes⟩
  have secondTurns := firstTurns.next persists awaits follows secondSound firstSound filled makes
  have resolved : second.draft.builder.isResolved new = true := by
    have inside := Nat.lt_of_lt_of_le awaits.pending.lt follows.size_le
    rcases Stage.pending_or_filled inside with pending | ⟨node, found⟩
    · exact absurd pending filled
    · have here : second.draft.builder.node? new = some node := found
      rw [Builder.isResolved, here]
      rfl
  refine succeeds_bind.2 (succeeds_get.2 ?_)
  rw [if_pos ⟨rfl, resolved⟩]
  exact succeeds_pure.2 ⟨second, rfl, secondSound, follows.target_eq.trans reserves.target_eq,
    secondTurns, follows.tops_eq.trans reserves.tops_eq⟩

/-- The groups from the given one on are filled in turn. -/
theorem leads_replaceGroups (fills : replacement.FillsWith plan conflate made) {stage : Stage}
    (sound : stage.Sound plan conflate) {k : Nat} (turns : stage.TurnsMaking made k)
    {groups : List (List Ref)} (left : plan.groups.drop k = groups) :
    Leads plan conflate ((groups.zipIdx k).forM (replaceGroup plan label replacement)) stage
      fun after => after.TurnsMaking made (k + groups.length) ∧
        after.draft.builder.tops = stage.draft.builder.tops := by
  induction groups generalizing stage k with
  | nil => exact succeeds_pure.2 ⟨stage, rfl, sound, rfl, turns, rfl⟩
  | cons members rest ih =>
    have listed : plan.groups[k]? = some members := by
      have head := congrArg List.head? left
      rw [List.head?_drop] at head
      exact head
    have later : plan.groups.drop (k + 1) = rest := by
      rw [← List.tail_drop, left]
      rfl
    rw [List.zipIdx_cons]
    refine succeeds_bind.2 (Succeeds.mono (leads_replaceGroup persists fills sound turns listed) ?_)
    rintro _ _ ⟨middle, rfl, middleSound, target, middleTurns, tops⟩
    refine Succeeds.mono (ih middleSound middleTurns later) ?_
    rintro _ _ ⟨after, rfl, afterSound, afterTarget, afterTurns, afterTops⟩
    refine ⟨after, rfl, afterSound, afterTarget.trans target, ?_, afterTops.trans tops⟩
    rw [List.length_cons, Nat.add_comm rest.length, ← Nat.add_assoc]
    exact afterTurns

/-! ## Names -/

/-- The name is bound to the copy of what it was bound to in the source. -/
def TopOf (plan : Plan) (trace : Trace) (old new : String × Ref) : Prop :=
  new.1 = old.1 ∧ plan.CopyOf trace old.2 new.2

/-- The names are bound in order. -/
theorem leads_bindTops {stage : Stage} (sound : stage.Sound plan conflate)
    (turns : stage.TurnsMaking made plan.groups.length) {bound rest : List (String × Ref)}
    (entries : plan.source.tops.entries = bound ++ rest)
    (related : List.Forall₂ (TopOf plan stage.trace) bound stage.draft.builder.tops.entries) :
    Leads plan conflate (rest.forM (bindTop plan)) stage fun after =>
      after.TurnsMaking made plan.groups.length ∧
        List.Forall₂ (TopOf plan after.trace) plan.source.tops.entries
          after.draft.builder.tops.entries := by
  induction rest generalizing stage bound with
  | nil =>
    rw [List.append_nil] at entries
    rw [entries]
    exact succeeds_pure.2 ⟨stage, rfl, sound, rfl, turns, related⟩
  | cons top rest ih =>
    obtain ⟨name, old⟩ := top
    have top : old ∈ plan.source.tops.values := by
      refine List.mem_map.2 ⟨(name, old), ?_, rfl⟩
      rw [entries]
      exact List.mem_append_right _ List.mem_cons_self
    refine succeeds_bind.2 (succeeds_bind.2
      (Succeeds.mono (advances_copy sound (.top top)) ?_))
    rintro new _ ⟨copied, rfl, copiedSound, follows, stands⟩
    obtain ⟨origin, traced⟩ := stands.exists_origin
    have inside : new < copied.draft.builder.size := copiedSound.lt traced
    refine succeeds_build_iff.2 ⟨(), { copied.draft.builder with
      tops := copied.draft.builder.tops.insert name new }, ?_, ?_⟩
    · rw [Builder.addTop, if_pos inside]
      rfl
    · have copiedTurns := turns.later persists follows copiedSound sound
      have before : List.Forall₂ (TopOf plan copied.trace) bound copied.draft.builder.tops.entries := by
        rw [follows.tops_eq]
        exact related.imp fun _ _ same => ⟨same.1, same.2.mono follows.grows⟩
      have namedEntries : (copied.named name new).draft.builder.tops.entries =
          copied.draft.builder.tops.entries ++ [(name, new)] := by
        refine OrderedMap.entries_insert_next entries ?_ new
        symm
        exact map_eq_map_of_forall₂ before fun _ _ _ _ same => same.1.symm
      have longer : List.Forall₂ (TopOf plan (copied.named name new).trace)
          (bound ++ [(name, old)]) (copied.named name new).draft.builder.tops.entries := by
        rw [namedEntries]
        exact List.rel_append before (.cons ⟨rfl, stands⟩ .nil)
      have split : plan.source.tops.entries = (bound ++ [(name, old)]) ++ rest := by
        rw [entries, List.append_assoc]
        rfl
      refine Succeeds.mono (ih (copiedSound.named name new)
        (copiedTurns.named name new) split longer) ?_
      rintro _ _ ⟨after, rfl, afterSound, target, holds⟩
      exact ⟨after, rfl, afterSound, target.trans follows.target_eq, holds⟩

end Making

end Drafting

/-! ## The graph -/

theorem Graph.ofNodes?_eq_ok {nodes : Array Node} {tops : OrderedMap String Ref}
    (valid : Valid nodes tops) : Graph.ofNodes? nodes tops = .ok ⟨nodes, tops, valid⟩ := by
  have clean : firstFault? nodes tops = none := firstFault?_eq_none_iff.2 valid
  unfold Graph.ofNodes?
  split
  · rename_i fault found
    rw [clean] at found
    cases found
  · rfl

/-- What the types of a graph stand for that replaces the groups of a plan. -/
structure Plan.Replaces (plan : Plan) (conflate : Bool) (target : Target) (h : Graph)
    (trace : Trace) : Prop where
  lt : ∀ {n origin}, trace n origin → n < h.size
  traced : ∀ {n}, n < h.size → ∃ origin, trace n origin
  known : ∀ {n origin}, trace n origin → plan.Known origin
  shared : ∀ {n first second}, trace n first → trace n second →
    first = second ∨ (first.IsCopy ∧ second.IsCopy ∧ ∃ p, h.type? n = some (.primitive p))
  unique : ∀ {n m origin}, trace n origin → trace m origin → n = m
  merge_unique : ∀ {n m types others}, trace n (.merge types) → trace m (.merge others) →
    unionKey types = unionKey others → n = m
  explains : plan.Explains conflate target trace h.node?
  tops : List.Forall₂ (Drafting.TopOf plan trace) plan.source.tops.entries h.tops.entries

theorem Plan.Replaces.exists_node {plan : Plan} {conflate : Bool} {target : Target} {h : Graph}
    {trace : Trace} (replaces : plan.Replaces conflate target h trace) {n : Ref} {origin : Origin}
    (traced : trace n origin) : ∃ node, h.node? n = some node := by
  have inside : n < h.nodes.size := replaces.lt traced
  exact ⟨h.nodes[n], Array.getElem?_eq_getElem inside⟩

/-- The graph has the names of the source, in their order. -/
theorem Plan.Replaces.keys_tops {plan : Plan} {conflate : Bool} {target : Target} {h : Graph}
    {trace : Trace} (replaces : plan.Replaces conflate target h trace) :
    h.tops.keys = plan.source.tops.keys :=
  (map_eq_map_of_forall₂ replaces.tops fun _ _ _ _ top => top.1.symm).symm

namespace Stage

variable {plan : Plan} {conflate : Bool} {stage : Stage} {nodes : Array Node}

/-- The references are filled by the nodes. -/
def FilledBy (stage : Stage) (nodes : Array Node) : Prop :=
  stage.draft.builder.slots = nodes.map some

theorem exists_filledBy (filled : ∀ n, ¬ stage.Pending n) : ∃ nodes, stage.FilledBy nodes := by
  have each : ∀ slot ∈ stage.draft.builder.slots.toList, slot ≠ none := by
    rintro slot member rfl
    obtain ⟨n, bound, here⟩ := List.mem_iff_getElem.1 member
    refine filled n ?_
    rw [Pending, ← Array.getElem?_toList, List.getElem?_eq_getElem bound, here]
  exact Builder.exists_slots each

theorem FilledBy.size_eq (filled : stage.FilledBy nodes) : stage.size = nodes.size := by
  show stage.draft.builder.slots.size = nodes.size
  rw [filled, Array.size_map]

theorem FilledBy.node?_eq (filled : stage.FilledBy nodes) (n : Ref) : stage.node? n = nodes[n]? :=
  Builder.node?_of_complete filled n

theorem FilledBy.finish?_eq (filled : stage.FilledBy nodes)
    (valid : Valid nodes stage.draft.builder.tops) :
    stage.draft.builder.finish? = .ok ⟨nodes, stage.draft.builder.tops, valid⟩ :=
  (Builder.finish?_of_complete filled).trans (Graph.ofNodes?_eq_ok valid)

theorem FilledBy.eq_of_finish? (filled : stage.FilledBy nodes) {h : Graph}
    (finished : stage.draft.builder.finish? = .ok h) :
    ∃ valid, h = ⟨nodes, stage.draft.builder.tops, valid⟩ := by
  rw [Builder.finish?_of_complete filled] at finished
  unfold Graph.ofNodes? at finished
  split at finished
  · cases finished
  · cases finished
    exact ⟨_, rfl⟩

theorem Sound.unique (sound : stage.Sound plan conflate) {n m : Ref} {origin : Origin}
    (one : stage.trace n origin) (other : stage.trace m origin) : n = m := by
  cases origin with
  | group index => exact sound.group_unique one other
  | copy old =>
    have same := (sound.copy_iff.1 one).symm.trans (sound.copy_iff.1 other)
    exact Option.some.inj same
  | merge types => exact sound.merge_unique one other rfl

/-- What fills a reference may stand for what the reference stands for. -/
theorem Sound.exists_realised (sound : stage.Sound plan conflate) (filled : stage.FilledBy nodes)
    {node : Node} (member : node ∈ nodes) :
    ∃ origin raw, plan.Realises conflate stage.trace origin raw ∧
      node = stage.draft.builder.target.normalize raw := by
  obtain ⟨n, bound, rfl⟩ := Array.mem_iff_getElem.1 member
  have inside : n < stage.size := by
    rw [filled.size_eq]
    exact bound
  obtain ⟨origin, traced⟩ := sound.traced inside
  have found : stage.node? n = some nodes[n] := by
    rw [filled.node?_eq, Array.getElem?_eq_getElem bound]
  obtain ⟨raw, realises, same⟩ := sound.realised traced found
  exact ⟨origin, raw, realises, same⟩

/-- Constituents of filled references are there, and members of unions differ in kind. -/
theorem Sound.valid (sound : stage.Sound plan conflate) (records : plan.OfRecords)
    (filled : stage.FilledBy nodes)
    (tops : ∀ r ∈ stage.draft.builder.tops.values, r < stage.size) :
    Valid nodes stage.draft.builder.tops := by
  have children : ∀ node ∈ nodes, ∀ r ∈ node.children, r < nodes.size := by
    intro node member r child
    obtain ⟨origin, raw, realises, rfl⟩ := sound.exists_realised filled member
    rw [Target.mem_children_normalize] at child
    obtain ⟨other, traced⟩ := realises.children child
    rw [← filled.size_eq]
    exact sound.lt traced
  refine { tops_lt := ?tops, children_lt := children, kinds_differ := ?kinds }
  case tops =>
    intro r top
    rw [← filled.size_eq]
    exact tops r top
  case kinds =>
    intro node member members type a inA b inB kinds
    obtain ⟨origin, raw, realises, rfl⟩ := sound.exists_realised filled member
    have isUnion : raw.kind ≠ .record := by
      rw [← Target.kind_normalize stage.draft.builder.target raw, Node.kind, type]
      intro same
      cases same
    rw [Target.type_normalize_of_kind _ _ isUnion] at type
    have found : ∀ r ∈ members, ∃ child, stage.node? r = some child := by
      intro r inside
      have child : r ∈ raw.children := by
        rw [Node.children, type]
        exact inside
      have bound := children _ member r ((Target.mem_children_normalize _ _).2 child)
      exact ⟨nodes[r], by rw [filled.node?_eq, Array.getElem?_eq_getElem bound]⟩
    have explains : plan.Explains conflate stage.draft.builder.target stage.trace stage.node? :=
      fun traced found => sound.realised traced found
    refine Plan.nodup_kinds_of_union explains records realises type found a inA b inB ?_
    rw [filled.node?_eq, filled.node?_eq]
    exact kinds

/-- A graph with the nodes and the names of a stage replaces the groups. -/
theorem Sound.replaces (sound : stage.Sound plan conflate) (filled : stage.FilledBy nodes)
    (tops : List.Forall₂ (Drafting.TopOf plan stage.trace) plan.source.tops.entries
      stage.draft.builder.tops.entries) (valid : Valid nodes stage.draft.builder.tops) :
    plan.Replaces conflate stage.draft.builder.target ⟨nodes, stage.draft.builder.tops, valid⟩
      stage.trace := by
  refine { lt := ?lt, traced := ?traced, known := sound.known, shared := ?shared,
           unique := sound.unique, merge_unique := sound.merge_unique, explains := ?explains,
           tops := tops }
  case lt =>
    intro n origin traced
    show n < nodes.size
    rw [← filled.size_eq]
    exact sound.lt traced
  case traced =>
    intro n bound
    refine sound.traced ?_
    rw [filled.size_eq]
    exact bound
  case shared =>
    intro n first second one other
    rcases sound.shared one other with same | ⟨firstCopy, secondCopy, p, plain⟩
    · exact .inl same
    · refine .inr ⟨firstCopy, secondCopy, p, ?_⟩
      rw [filled.node?_eq] at plain
      rw [Graph.type?, Graph.node?, plain]
      rfl
  case explains =>
    intro n origin node traced found
    refine sound.realised traced ?_
    rw [filled.node?_eq]
    exact found

end Stage

namespace Drafting

variable {plan : Plan} {conflate : Bool} {label : String} {replacement : Replacement}
  {made : Trace → Nat → Ty → Prop}

/-- Whatever the groups consist of, all of them are replaced, and then all names are bound. -/
theorem succeeds_replacements (persists : Persistent made)
    (fills : replacement.FillsWith plan conflate made) (target : Target) :
    Succeeds (plan.groups.zipIdx.forM (replaceGroup plan label replacement)) (Draft.start target)
      fun _ middle => Succeeds (plan.source.tops.entries.forM (bindTop plan)) middle
        fun _ draft => ∃ final : Stage, final.draft = draft ∧ final.Sound plan conflate ∧
          final.draft.builder.target = target ∧ final.TurnsMaking made plan.groups.length ∧
          List.Forall₂ (TopOf plan final.trace) plan.source.tops.entries
            final.draft.builder.tops.entries := by
  refine Succeeds.mono
    (leads_replaceGroups persists fills (.start target) (.start target) List.drop_zero) ?_
  rintro _ _ ⟨middle, rfl, middleSound, middleTarget, turns, middleTops⟩
  rw [Nat.zero_add] at turns
  have noTops : middle.draft.builder.tops.entries = [] := by
    rw [middleTops]
    rfl
  refine Succeeds.mono (leads_bindTops persists middleSound turns
    (List.nil_append _).symm (by rw [noTops]; exact .nil)) ?_
  rintro _ _ ⟨final, rfl, sound, finalTarget, finalTurns, tops⟩
  exact ⟨final, rfl, sound, finalTarget.trans middleTarget, finalTurns, tops⟩

/-- Replacing groups of records succeeds, and makes a graph that replaces the groups; only sets of
several types are merged. -/
theorem succeeds_replaceAll (fills : replacement.Fills conflate) (records : plan.OfRecords)
    (target : Target) :
    Succeeds (replaceAll plan label replacement) (Draft.start target)
      fun h _ => ∃ trace, plan.Replaces conflate target h trace ∧
        ∀ n types, trace n (.merge types) → 1 < types.size := by
  have always : Persistent fun _ _ _ => True := fun _ _ _ _ _ => id
  refine succeeds_bind.2
    (Succeeds.mono (succeeds_replacements always (fills.fillsWith plan) target) ?_)
  intro _ _ named
  refine succeeds_bind.2 (Succeeds.mono named ?_)
  rintro _ _ ⟨final, rfl, sound, rfl, turns, tops⟩
  refine succeeds_bind.2 (succeeds_get.2 ?_)
  obtain ⟨nodes, filled⟩ := Stage.exists_filledBy (turns.not_pending sound)
  have inside : ∀ r ∈ final.draft.builder.tops.values, r < final.size := by
    intro r member
    obtain ⟨entry, listed, rfl⟩ := List.mem_map.1 member
    obtain ⟨old, _, same⟩ := exists_of_mem_right tops listed
    obtain ⟨origin, traced⟩ := same.2.exists_origin
    exact sound.lt traced
  have valid := sound.valid records filled inside
  rw [filled.finish?_eq valid]
  exact succeeds_bind.2 (succeeds_report.2 (succeeds_pure.2
    ⟨final.trace, sound.replaces filled tops valid, fun _ _ traced => sound.plural traced records⟩))

/-- Whatever the groups consist of, a graph that comes of replacing them replaces them. -/
theorem ensures_replaces (persists : Persistent made)
    (fills : replacement.FillsWith plan conflate made) (target : Target) :
    Ensures (replaceAll plan label replacement) (Draft.start target)
      (fun h _ => ∃ trace, plan.Replaces conflate target h trace ∧
        ∀ index < plan.groups.length, ∃ n type, trace n (.group index) ∧ h.type? n = some type ∧
          made trace index type) fun _ => True := by
  refine ensures_bind.2 ((Succeeds.ensures (succeeds_replacements persists fills target)).mono ?_
    fun _ => id)
  intro _ _ named
  refine ensures_bind.2 ((Succeeds.ensures named).mono ?_ fun _ => id)
  rintro _ _ ⟨final, rfl, sound, rfl, turns, tops⟩
  refine ensures_bind.2 (ensures_get.2 ?_)
  obtain ⟨nodes, filled⟩ := Stage.exists_filledBy (turns.not_pending sound)
  cases finished : final.draft.builder.finish? with
  | error fault => exact ensures_refuse.2 trivial
  | ok h =>
    obtain ⟨valid, rfl⟩ := filled.eq_of_finish? finished
    have replaces := sound.replaces filled tops valid
    refine ensures_bind.2 (ensures_modify.2 (ensures_pure.2 ⟨final.trace, replaces, ?_⟩))
    intro index inside
    obtain ⟨n, traced⟩ := turns.past inside
    obtain ⟨node, found⟩ := replaces.exists_node traced
    refine ⟨n, node.type, traced, Graph.type?_of_node? _ found, turns.makes inside traced ?_⟩
    rw [filled.node?_eq]
    exact found

end Drafting

/-- Replacing groups of records by a replacement that fills them succeeds, and the new graph replaces
the groups. -/
theorem Graph.replaceGroups_succeeds {source : Graph} (label : String) {target : Target}
    {conflate : Bool} {replacement : Replacement} (fills : replacement.Fills conflate) {plan : Plan}
    (planned : Plan.ofGroups? source plan.groups = .ok plan) (records : plan.OfRecords) :
    ∃ h trace, (source.replaceGroups label target plan.groups replacement).result = .ok h ∧
      plan.Replaces conflate target h trace ∧ ∀ n types, trace n (.merge types) → 1 < types.size := by
  obtain ⟨h, draft, run, trace, replaces⟩ :=
    Drafting.succeeds_replaceAll fills records target
  refine ⟨h, trace, ?_, replaces⟩
  unfold Graph.replaceGroups
  rw [planned]
  have result := congrArg Prod.fst run
  exact result

/-- A graph that comes of replacing groups of any types by a replacement that fills them replaces the groups,
and the types of the groups have the property that they were made with. -/
theorem Graph.replaces_of_replaceGroups {source h : Graph} {label : String} {target : Target}
    {conflate : Bool} {groups : List (List Ref)} {replacement : Replacement} {plan : Plan}
    {made : Trace → Nat → Ty → Prop} (persists : Persistent made)
    (fills : replacement.FillsWith plan conflate made)
    (planned : Plan.ofGroups? source groups = .ok plan)
    (done : (source.replaceGroups label target groups replacement).result = .ok h) :
    ∃ trace, plan.Replaces conflate target h trace ∧
      ∀ index < plan.groups.length, ∃ n type, trace n (.group index) ∧ h.type? n = some type ∧
        made trace index type := by
  obtain ⟨other, final, plannedToo, run⟩ := Graph.exists_run_of_replaceGroups done
  cases planned.symm.trans plannedToo
  exact (Drafting.ensures_replaces persists fills target).of_run run

end SchemaGraph
