import SchemaGraph.Draft.Replacement
import SchemaGraph.Proofs.Draft.Ensures
import SchemaGraph.Proofs.Graph.Traversal
import SchemaGraph.Proofs.Node
/-!
# Proofs.Draft.Numbering -- copies are numbered in the order in which a walk enters their originals

References of the new graph are given out in three places: one is reserved before the constituents of a
type are copied, a primitive type with attributes gets its own, and the first plain one of its kind gets
one that later ones share. In each of them the type is remembered at once, so the references are numbered
as the memory lists them (`Draft.Numbered`).

The memory lists the types in the order in which a walk through the source enters them: a copy that was
made before is found, and any other goes on with its constituents before the next pending type has its
turn (`Draft.Walked`). `Drafting.ensures_walked_copyWithin` is the induction.
-/

namespace SchemaGraph

set_option autoImplicit false

namespace OrderedMap

variable {κ β : Type} [DecidableEq κ] {m : OrderedMap κ β} {k : κ} {v : β}

/-- A new key goes to the end. -/
theorem entries_insert_of_fresh (fresh : m.get? k = none) (v : β) :
    (m.insert k v).entries = m.entries ++ [(k, v)] := put_of_not_mem (get?_eq_none_iff.1 fresh)

theorem keys_insert_of_fresh (fresh : m.get? k = none) (v : β) : (m.insert k v).keys = m.keys ++ [k] := by
  rw [keys_insert, if_neg (get?_eq_none_iff.1 fresh)]

theorem values_insert_of_fresh (fresh : m.get? k = none) (v : β) :
    (m.insert k v).values = m.values ++ [v] := by
  rw [values, entries_insert_of_fresh fresh, List.map_append]
  rfl

theorem mem_values_iff : v ∈ m.values ↔ ∃ k, m.get? k = some v := by
  simp [values, get?_eq_some_iff]

end OrderedMap

namespace Graph

variable {g : Graph} {target : Target} {r : Ref} {p q : Primitive}

/-- The type is primitive, and the target leaves it no attributes. -/
def PlainAt (g : Graph) (target : Target) (r : Ref) (p : Primitive) : Prop :=
  ∃ node, g.node? r = some node ∧ (target.normalize node).plain? = some p

theorem PlainAt.unique (one : g.PlainAt target r p) (other : g.PlainAt target r q) : p = q := by
  obtain ⟨node, found, plain⟩ := one
  obtain ⟨same, found', plain'⟩ := other
  cases found.symm.trans found'
  exact Option.some.inj (plain.symm.trans plain')

theorem PlainAt.kind_eq (plain : g.PlainAt target r p) : g.kind? r = some p.kind := by
  obtain ⟨node, found, plain⟩ := plain
  have kind := target.kind_normalize node
  rw [Node.eq_of_plain? _ plain] at kind
  rw [kind?, found, Option.map_some, ← kind]
  rfl

theorem PlainAt.isPrimitive {node : Node} (plain : g.PlainAt target r p) (found : g.node? r = some node) :
    node.kind.isPrimitive = true := by
  have kind := plain.kind_eq
  rw [kind?, found, Option.map_some, Option.some.injEq] at kind
  rw [kind]
  cases p <;> rfl

/-- The references of the graph that are not among those given. -/
def unseen (g : Graph) (seen : List Ref) : List Ref := g.refs.filter (· ∉ seen)

theorem nodup_unseen (seen : List Ref) : (g.unseen seen).Nodup := List.nodup_range.filter _

theorem mem_unseen {seen : List Ref} : r ∈ g.unseen seen ↔ r < g.size ∧ r ∉ seen := by
  simp [unseen, mem_refs]

theorem unseen_append (seen entered : List Ref) :
    g.unseen (seen ++ entered) = (g.unseen seen).filter (· ∉ entered) := by
  rw [unseen, unseen, List.filter_filter]
  refine List.filter_congr fun r _ => ?_
  simp [Bool.and_comm]

theorem explore_of_seen {seen : List Ref} (known : r ∈ seen) :
    explore g.children (g.unseen seen) [r] = [] := by
  rw [explore_cons, if_neg fun open_ => (mem_unseen.1 open_).2 known, explore_nil]

theorem explore_of_unseen {seen : List Ref} (inside : r < g.size) (fresh : r ∉ seen) :
    explore g.children (g.unseen seen) [r] =
      r :: explore g.children (g.unseen (seen ++ [r])) (g.children r) := by
  have erased : (g.unseen seen).erase r = g.unseen (seen ++ [r]) := by
    rw [(nodup_unseen seen).erase_eq_filter, unseen_append]
    refine List.filter_congr fun s _ => ?_
    by_cases same : s = r <;> simp [same]
  rw [explore_cons, if_pos (mem_unseen.2 ⟨inside, fresh⟩), List.append_nil, erased]

end Graph

namespace Builder

variable {b after : Builder} {node : Node} {slot r : Ref}

/-- Filling a reference changes nothing but what it holds. -/
theorem eq_of_add_some (added : b.add node (some slot) = .ok (r, after)) :
    after.size = b.size ∧ after.interned = b.interned ∧ after.target = b.target := by
  unfold add at added
  split at added
  · cases added
  · unfold fill at added
    cases found : b.slots[slot]? with
    | none => simp [found, bind, Except.bind] at added
    | some held =>
      cases held with
      | some _ => simp [found, bind, Except.bind] at added
      | none =>
        simp only [found, bind, Except.bind, Except.ok.injEq, Prod.mk.injEq] at added
        rw [← added.2]
        exact ⟨Array.size_setIfInBounds, rfl, rfl⟩

end Builder

namespace Draft

variable {plan : Plan} {target : Target} {draft middle after : Draft} {old new : Ref}

/-! ## The order of references -/

/-- The references are numbered in the order in which the copies that they are given to are remembered.
Types share one only if they are plain primitive types of one kind, and then they do. -/
structure Numbered (plan : Plan) (target : Target) (draft : Draft) : Prop where
  target_eq : draft.builder.target = target
  order : firsts draft.copied.values = List.range draft.builder.size
  interned : ∀ {p r}, draft.builder.interned.get? p = some r ↔
    ∃ a, draft.copied.get? a = some r ∧ plan.source.PlainAt target a p
  apart : ∀ {a b r}, draft.copied.get? a = some r → draft.copied.get? b = some r →
    a = b ∨ ∃ p, plan.source.PlainAt target a p ∧ plan.source.PlainAt target b p

theorem numbered_start (plan : Plan) (target : Target) : (start target).Numbered plan target where
  target_eq := rfl
  order := rfl
  interned := ⟨nofun, nofun⟩
  apart := nofun

theorem Numbered.lt (numbered : draft.Numbered plan target) (known : draft.copied.get? old = some new) :
    new < draft.builder.size := by
  have listed : new ∈ firsts draft.copied.values :=
    mem_firsts.2 (OrderedMap.mem_values_iff.2 ⟨old, known⟩)
  rw [numbered.order] at listed
  exact List.mem_range.1 listed

/-- Nothing else of a draft matters. -/
theorem Numbered.congr (numbered : draft.Numbered plan target) (copied : after.copied = draft.copied)
    (builder : after.builder.size = draft.builder.size ∧ after.builder.interned = draft.builder.interned ∧
      after.builder.target = draft.builder.target) : after.Numbered plan target where
  target_eq := builder.2.2.trans numbered.target_eq
  order := by rw [copied, builder.1, numbered.order]
  interned := by rw [copied, builder.2.1]; exact numbered.interned
  apart := by rw [copied]; exact numbered.apart

/-- A type that is remembered with a new reference, which is known as that of a plain type just if the type
is one. -/
theorem Numbered.fresh (numbered : draft.Numbered plan target) (unknown : draft.copied.get? old = none)
    {builder : Builder} (size : builder.size = draft.builder.size + 1)
    (targetEq : builder.target = draft.builder.target)
    (interned : ∀ {p r}, builder.interned.get? p = some r ↔
      draft.builder.interned.get? p = some r ∨
        r = draft.builder.size ∧ plan.source.PlainAt target old p) :
    ({ draft with builder, copied := draft.copied.insert old draft.builder.size } : Draft).Numbered
      plan target where
  target_eq := targetEq.trans numbered.target_eq
  order := by
    have notListed : draft.builder.size ∉ draft.copied.values := by
      intro listed
      obtain ⟨a, known⟩ := OrderedMap.mem_values_iff.1 listed
      exact Nat.lt_irrefl _ (numbered.lt known)
    show firsts (draft.copied.insert old draft.builder.size).values = List.range builder.size
    rw [OrderedMap.values_insert_of_fresh unknown, firsts_append, numbered.order, size, List.range_succ]
    simp [firsts_cons, notListed]
  interned {p r} := by
    simp only [interned, numbered.interned, OrderedMap.get?_insert_eq_some_iff unknown]
    constructor
    · rintro (⟨a, known, plain⟩ | ⟨rfl, plain⟩)
      · exact ⟨a, .inr known, plain⟩
      · exact ⟨old, .inl ⟨rfl, rfl⟩, plain⟩
    · rintro ⟨a, ⟨rfl, rfl⟩ | known, plain⟩
      · exact .inr ⟨rfl, plain⟩
      · exact .inl ⟨a, known, plain⟩
  apart {a b r} knownA knownB := by
    rw [OrderedMap.get?_insert_eq_some_iff unknown] at knownA knownB
    rcases knownA with ⟨rfl, newA⟩ | knownA
    · rcases knownB with ⟨rfl, _⟩ | knownB
      · exact .inl rfl
      · exact absurd newA (Nat.ne_of_lt (numbered.lt knownB))
    · rcases knownB with ⟨rfl, newB⟩ | knownB
      · exact absurd newB (Nat.ne_of_lt (numbered.lt knownA))
      · exact numbered.apart knownA knownB

/-- A plain type that is remembered with the reference of its kind. -/
theorem Numbered.share (numbered : draft.Numbered plan target) (unknown : draft.copied.get? old = none)
    {p : Primitive} (plain : plan.source.PlainAt target old p)
    (known : draft.builder.interned.get? p = some new) :
    ({ draft with copied := draft.copied.insert old new } : Draft).Numbered plan target := by
  obtain ⟨first, knownFirst, plainFirst⟩ := numbered.interned.1 known
  -- whatever has the reference is a plain type of the kind
  have each : ∀ {a}, draft.copied.get? a = some new → plan.source.PlainAt target a p := by
    intro a knownA
    rcases numbered.apart knownFirst knownA with rfl | ⟨q, plainQ, plainA⟩
    · exact plainFirst
    · cases plainFirst.unique plainQ
      exact plainA
  refine ⟨numbered.target_eq, ?_, fun {q r} => ?_, fun {a b r} knownA knownB => ?_⟩
  · have listed : new ∈ draft.copied.values := OrderedMap.mem_values_iff.2 ⟨first, knownFirst⟩
    show firsts (draft.copied.insert old new).values = List.range draft.builder.size
    rw [OrderedMap.values_insert_of_fresh unknown, firsts_append, numbered.order]
    simp [firsts_cons, listed]
  · simp only [numbered.interned, OrderedMap.get?_insert_eq_some_iff unknown]
    constructor
    · rintro ⟨a, knownA, plainA⟩
      exact ⟨a, .inr knownA, plainA⟩
    · rintro ⟨a, ⟨rfl, rfl⟩ | knownA, plainA⟩
      · cases plain.unique plainA
        exact ⟨first, knownFirst, plainFirst⟩
      · exact ⟨a, knownA, plainA⟩
  · rw [OrderedMap.get?_insert_eq_some_iff unknown] at knownA knownB
    rcases knownA with ⟨rfl, rfl⟩ | knownA
    · rcases knownB with ⟨rfl, _⟩ | knownB
      · exact .inl rfl
      · exact .inr ⟨p, plain, each knownB⟩
    · rcases knownB with ⟨rfl, rfl⟩ | knownB
      · exact .inr ⟨p, each knownA, plain⟩
      · exact numbered.apart knownA knownB

/-- A reference is reserved for a type that is not plain. -/
theorem Numbered.reserve (numbered : draft.Numbered plan target) (unknown : draft.copied.get? old = none)
    (notPlain : ∀ p, ¬ plan.source.PlainAt target old p) :
    ({ draft with
        builder := draft.builder.reserve.2
        copied := draft.copied.insert old draft.builder.size } : Draft).Numbered plan target := by
  refine numbered.fresh unknown (Array.size_push none) rfl fun {p r} => ?_
  simp [Builder.reserve, notPlain p]

/-- The node of a type is appended: it shares the reference of its kind if it is plain, and has its own
otherwise. -/
theorem Numbered.append (numbered : draft.Numbered plan target) (unknown : draft.copied.get? old = none)
    {node : Node} (found : plan.source.node? old = some node) {builder : Builder}
    (appended : draft.builder.append (target.normalize node) = (new, builder)) :
    ({ draft with builder, copied := draft.copied.insert old new } : Draft).Numbered plan target := by
  have decides : ∀ {p}, plan.source.PlainAt target old p ↔ (target.normalize node).plain? = some p := by
    intro p
    constructor
    · rintro ⟨same, found', plain⟩
      cases found.symm.trans found'
      exact plain
    · exact fun plain => ⟨node, found, plain⟩
  unfold Builder.append at appended
  cases plain : (target.normalize node).plain? with
  | none =>
    simp only [plain] at appended
    cases appended
    refine numbered.fresh unknown (Array.size_push _) rfl fun {p r} => ?_
    simp [decides, plain]
  | some p =>
    simp only [plain] at appended
    cases known : draft.builder.interned.get? p with
    | some r =>
      simp only [known] at appended
      cases appended
      exact numbered.share unknown (decides.2 plain) known
    | none =>
      simp only [known] at appended
      cases appended
      refine numbered.fresh unknown (Array.size_push _) rfl fun {q r} => ?_
      show (draft.builder.interned.insert p draft.builder.size).get? q = some r ↔ _
      rw [OrderedMap.get?_insert, decides, plain]
      by_cases same : p = q
      · subst same
        simp [known, eq_comm]
      · simp [same]

/-! ## The order of copying -/

/-- From the one draft to the other what a walk from the pending types enters was copied, in its order. -/
structure Walked (plan : Plan) (target : Target) (pending : List Ref) (draft after : Draft) : Prop where
  numbered : after.Numbered plan target
  keys : after.copied.keys = draft.copied.keys ++
    explore plan.source.children (plan.source.unseen draft.copied.keys) pending

theorem Numbered.walked (numbered : draft.Numbered plan target) : Walked plan target [] draft draft where
  numbered := numbered
  keys := by rw [explore_nil, List.append_nil]

theorem Walked.append {first second : List Ref} (one : Walked plan target first draft middle)
    (two : Walked plan target second middle after) : Walked plan target (first ++ second) draft after where
  numbered := two.numbered
  keys := by
    rw [two.keys, one.keys, Graph.unseen_append, explore_append (Graph.nodup_unseen _), List.append_assoc]

theorem Walked.congr {pending : List Ref} (walked : Walked plan target pending draft middle)
    (copied : after.copied = middle.copied)
    (builder : after.builder.size = middle.builder.size ∧
      after.builder.interned = middle.builder.interned ∧
      after.builder.target = middle.builder.target) : Walked plan target pending draft after where
  numbered := walked.numbered.congr copied builder
  keys := by rw [copied, walked.keys]

/-- A type that is copied already. -/
theorem Numbered.walked_known (numbered : draft.Numbered plan target)
    (known : draft.copied.get? old = some new) : Walked plan target [old] draft draft where
  numbered := numbered
  keys := by
    rw [Graph.explore_of_seen (OrderedMap.mem_keys_iff.2 ⟨new, known⟩), List.append_nil]

/-- A type is remembered, and its constituents are walked through. -/
theorem Walked.remember {builder : Builder}
    (walked : Walked plan target (plan.source.children old)
      { draft with builder, copied := draft.copied.insert old new } after)
    (unknown : draft.copied.get? old = none) (inside : old < plan.source.size) :
    Walked plan target [old] draft after where
  numbered := walked.numbered
  keys := by
    have fresh := OrderedMap.get?_eq_none_iff.1 unknown
    rw [walked.keys, OrderedMap.keys_insert_of_fresh unknown, Graph.explore_of_unseen inside fresh,
      List.append_assoc]
    rfl

end Draft

namespace Drafting

open Draft

variable {plan : Plan} {target : Target} {draft : Draft} {label : String} {replacement : Replacement}

theorem ensures_walked_mapM {olds : List Ref} {step : Ref → Drafting Ref}
    (numbered : draft.Numbered plan target)
    (each : ∀ old ∈ olds, ∀ before : Draft, before.Numbered plan target →
      Ensures (step old) before (fun _ after => Walked plan target [old] before after) fun _ => True) :
    Ensures (olds.mapM step) draft (fun _ after => Walked plan target olds draft after) fun _ => True := by
  induction olds generalizing draft with
  | nil => exact ensures_pure.2 numbered.walked
  | cons old rest ih =>
    rw [List.mapM_cons, ensures_bind]
    refine (each old List.mem_cons_self draft numbered).mono ?_ fun _ => id
    intro new middle first
    rw [ensures_bind]
    refine (ih first.numbered fun other later => each other (List.mem_cons_of_mem _ later)).mono ?_ fun _ => id
    exact fun news after second => ensures_pure.2 (first.append second)

theorem ensures_walked_copyPrimitive {old : Ref} {node : Node} (numbered : draft.Numbered plan target)
    (found : plan.source.node? old = some node) (primitive : node.kind.isPrimitive = true)
    (unknown : draft.copied.get? old = none) :
    Ensures (add node none >>= fun new => remember old new >>= fun _ => pure new) draft
      (fun _ after => Walked plan target [old] draft after) fun _ => True := by
  have noChildren := node.children_of_isPrimitive primitive
  refine ensures_bind.2 (ensures_build (fun _ _ => trivial) fun new builder added => ?_)
  refine ensures_bind.2 (ensures_modify.2 (ensures_pure.2 ?_))
  have appended : draft.builder.append (target.normalize node) = (new, builder) := by
    rw [Builder.add, noChildren, numbered.target_eq] at added
    exact Except.ok.inj added
  have walked := (numbered.append unknown found appended).walked
  have leaf : plan.source.children old = [] := by rw [Graph.children, found, ← noChildren]
  rw [← leaf] at walked
  exact walked.remember unknown (plan.source.lt_of_node? found)

/-- The reference is given out before the constituents get theirs. -/
theorem ensures_walked_copyCompound {old : Ref} {node : Node} {copyChild : Ref → Drafting Ref}
    (numbered : draft.Numbered plan target) (found : plan.source.node? old = some node)
    (compound : ¬ node.kind.isPrimitive = true) (unknown : draft.copied.get? old = none)
    (each : ∀ child ∈ node.children, ∀ before : Draft, before.Numbered plan target →
      Ensures (copyChild child) before (fun _ after => Walked plan target [child] before after)
        fun _ => True) :
    Ensures (reserve >>= fun slot => remember old slot >>= fun _ => node.children.mapM copyChild >>=
        fun news => add ⟨node.type.withChildren news, node.attributes⟩ (some slot)) draft
      (fun _ after => Walked plan target [old] draft after) fun _ => True := by
  refine ensures_bind.2 (ensures_reserve.2 (ensures_bind.2 (ensures_modify.2 ?_)))
  have reserved := numbered.reserve unknown fun p plain => compound (plain.isPrimitive found)
  refine ensures_bind.2 ((ensures_walked_mapM reserved each).mono ?_ fun _ => id)
  intro news after walked
  refine ensures_build (fun _ _ => trivial) fun new builder added => ?_
  have children : plan.source.children old = node.children := by rw [Graph.children, found]
  rw [← children] at walked
  exact (walked.remember unknown (plan.source.lt_of_node? found)).congr rfl (Builder.eq_of_add_some added)

/-- Without groups, copying a type copies what a walk from it enters. -/
theorem ensures_walked_copyWithin (none : plan.groups = []) {depth : Nat} {old : Ref}
    (numbered : draft.Numbered plan target) :
    Ensures (copyWithin plan depth old) draft
      (fun _ after => Walked plan target [old] draft after) fun _ => True := by
  -- the induction is on the bound: a walk through the constituents is a walk from the type
  induction depth generalizing draft old with
  | zero => trivial
  | succ depth ih =>
    have free : plan.groupOf? old = Option.none := by
      rw [Plan.groupOf?, none]
      rfl
    simp only [copyWithin, free]
    cases found : plan.source.node? old with
    | none => exact ensures_refuse.2 trivial
    | some node =>
      refine ensures_bind.2 (ensures_get.2 ?_)
      cases known : draft.copied.get? old with
      | some new => exact ensures_pure.2 (numbered.walked_known known)
      | none =>
        simp only
        by_cases primitive : node.kind.isPrimitive = true
        · rw [if_pos primitive]
          exact ensures_walked_copyPrimitive numbered found primitive known
        · rw [if_neg primitive]
          exact ensures_walked_copyCompound numbered found primitive known fun child _ before => ih

/-- Binding the names copies what a walk from their types enters. -/
theorem ensures_walked_bindTops (none : plan.groups = []) {tops : List (String × Ref)}
    (numbered : draft.Numbered plan target) : Ensures (tops.forM (bindTop plan)) draft
      (fun _ after => Walked plan target (tops.map Prod.snd) draft after) fun _ => True := by
  induction tops generalizing draft with
  | nil => exact ensures_pure.2 numbered.walked
  | cons top rest ih =>
    refine ensures_bind.2 (ensures_bind.2 ((ensures_walked_copyWithin none numbered).mono ?_ fun _ => id))
    intro new copied first
    refine ensures_build (fun _ _ => trivial) fun _ builder named => ?_
    have same : builder.size = copied.builder.size ∧ builder.interned = copied.builder.interned ∧
        builder.target = copied.builder.target := by
      unfold Builder.addTop at named
      split at named
      · cases named
        exact ⟨rfl, rfl, rfl⟩
      · cases named
    have bound : Walked plan target [top.2] draft { copied with builder } := first.congr rfl same
    exact (ih bound.numbered).mono (fun _ after second => bound.append second) fun _ => id

/-- Without groups, the copies are remembered in the order in which their originals are reached, and the
references are numbered in the order of the copies. -/
theorem ensures_walked_replaceAll (none : plan.groups = []) (target : Target) :
    Ensures (replaceAll plan label replacement) (.start target) (fun h final =>
      final.Numbered plan target ∧ final.copied.keys = plan.source.reachable ∧
        final.builder.finish? = .ok h) fun _ => True := by
  have nothing : plan.groups.zipIdx.forM (replaceGroup plan label replacement) = pure () := by
    rw [none]
    rfl
  rw [replaceAll, nothing, pure_bind, ensures_bind]
  refine (ensures_walked_bindTops none (numbered_start plan target)).mono ?_ fun _ => id
  intro _ final walked
  refine ensures_bind.2 (ensures_get.2 ?_)
  cases finished : final.builder.finish? with
  | error fault => exact ensures_refuse.2 trivial
  | ok h =>
    refine ensures_bind.2 (ensures_modify.2 (ensures_pure.2 ⟨?_, ?_, finished⟩))
    · exact walked.numbered.congr rfl ⟨rfl, rfl, rfl⟩
    · have all : plan.source.unseen [] = plan.source.refs := by simp [Graph.unseen]
      have keys := walked.keys
      rw [show (start target).copied.keys = [] from rfl, List.nil_append, all] at keys
      exact keys

end Drafting

end SchemaGraph
