import Mathlib
import SchemaGraph.Proofs.Draft.Scripted
import SchemaGraph.Proofs.Graph.Walk
/-!
# Proofs.Draft.Homomorphism -- outside its groups, replacing is copying

Whatever the replacement of the groups does, as long as it is made of commands: if replacing them makes a
graph, then that graph holds a copy of all that the top-level types lead to, down to the members of
groups, and each of these is sent to the one reference of its group (`Plan.Homomorphism`). So the map from old
types to new ones is a homomorphism outside the groups (`Graph.replaceGroups_homomorphism`).

The map is read off the memory of the draft at the end (`Draft.image`): by then no copy is in progress, so
every copy shows its original (`Draft.Copying`).
-/

namespace SchemaGraph

set_option autoImplicit false

/-! ## What a replacement carries over -/

namespace Plan

variable (plan : Plan)

/-- A top-level type leads to the type of the source, by a path that does not go on below a member of a
group. -/
inductive Visible : Ref → Prop
  | top {r : Ref} : r ∈ plan.source.tops.values → Visible r
  | child {r child : Ref} : Visible r → plan.groupOf? r = none → child ∈ plan.source.children r →
      Visible child

/-- The new graph has every visible type of the source at its image: the members of a group at the
reference of the group, the other types as they are, over the images of their constituents and as the
target wants them. -/
structure Homomorphism (target : Target) (h : Graph) (forwarding : Nat → Ref) (image : Ref → Ref) : Prop where
  group : ∀ {index members}, plan.groups[index]? = some members → ∀ r ∈ members, image r = forwarding index
  filled : ∀ index < plan.groups.length, ∃ node, h.node? (forwarding index) = some node
  tops : h.tops.entries = plan.source.tops.entries.map fun top => (top.1, image top.2)
  node : ∀ {r node}, plan.Visible r → plan.groupOf? r = none → plan.source.node? r = some node →
    h.node? (image r) = some (target.normalize ⟨node.type.mapRefs image, node.attributes⟩)

end Plan

/-! ## The map of a draft -/

namespace Draft

variable (plan : Plan) (draft : Draft)

/-- The reference of a group, if it has one yet. -/
def forwarding (group : Nat) : Ref := (draft.groupRefs.get? group).getD 0

/-- Where the draft remembers a type of the source to lead. -/
def image (old : Ref) : Ref :=
  match plan.groupOf? old with
  | some group => draft.forwarding group
  | none => (draft.copied.get? old).getD 0

variable {plan draft}

theorem Maps.image_eq {old new : Ref} (maps : draft.Maps plan old new) : draft.image plan old = new := by
  unfold Maps at maps
  unfold image forwarding
  cases group : plan.groupOf? old with
  | some index =>
    simp only [group] at maps
    simp only [maps, Option.getD_some]
  | none =>
    simp only [group] at maps
    simp only [maps, Option.getD_some]

/-- A type that is shown by its copy is there over the images of its constituents. -/
theorem Shows.node?_eq {old new : Ref} {node : Node} (shows : draft.Shows plan old new)
    (found : plan.source.node? old = some node) : draft.builder.node? new =
      some (draft.builder.target.normalize ⟨node.type.mapRefs (draft.image plan), node.attributes⟩) := by
  obtain ⟨same, news, here, maps, there⟩ := shows
  rw [found] at here
  cases here
  have images : node.children.map (draft.image plan) = news.map id :=
    map_eq_map_of_forall₂ maps fun _ _ _ _ maps => maps.image_eq
  rw [List.map_id] at images
  rw [there, ← images, Node.children, Ty.withChildren_map]

variable (plan draft) in
/-- A name of the new graph leads where the type of the same name in the source does. -/
def NameOf (old new : String × Ref) : Prop := new.1 = old.1 ∧ draft.Maps plan old.2 new.2

variable (tops : List.Forall₂ (draft.NameOf plan) plan.source.tops.entries draft.builder.tops.entries)

include tops

/-- If the names lead where their types do, every visible type is remembered. -/
theorem Copying.exists_maps (copying : draft.Copying plan []) {r : Ref} (visible : plan.Visible r) :
    ∃ new, draft.Maps plan r new := by
  induction visible with
  | top top =>
    obtain ⟨entry, listed, rfl⟩ := List.mem_map.1 top
    obtain ⟨new, _, _, maps⟩ := exists_of_mem_left tops listed
    exact ⟨new.2, maps⟩
  | @child r child _ free inside ih =>
    obtain ⟨new, maps⟩ := ih
    unfold Maps at maps
    rw [free] at maps
    obtain ⟨node, news, found, related, _⟩ := copying.shows maps List.not_mem_nil
    rw [Graph.children, found] at inside
    obtain ⟨other, _, here⟩ := exists_of_mem_left related inside
    exact ⟨other, here⟩

end Draft

/-! ## The end of the work -/

/-- A finished graph has the nodes and names of its builder, and every reference was filled. -/
theorem Builder.eq_of_finish? {b : Builder} {h : Graph} (finished : b.finish? = .ok h) :
    (∀ r, h.node? r = b.node? r) ∧ (∀ r < b.size, ∃ node, b.node? r = some node) ∧ h.tops = b.tops := by
  obtain ⟨nodes, slots⟩ | ⟨slot, reserved⟩ := b.complete_or_reserved
  · rw [finish?_of_complete slots] at finished
    unfold Graph.ofNodes? at finished
    split at finished
    · cases finished
    · cases finished
      refine ⟨fun r => (node?_of_complete slots r).symm, fun r inside => ?_, rfl⟩
      rw [size, slots, Array.size_map] at inside
      exact ⟨nodes[r], (node?_of_complete slots r).trans (Array.getElem?_eq_getElem inside)⟩
  · rw [(finish?_of_reserved reserved).1] at finished
    cases finished

/-- If the names lead where their types do, the finished graph carries over what is visible. -/
theorem Draft.Copying.homomorphism {plan : Plan} {draft : Draft} {h : Graph} (copying : draft.Copying plan [])
    (tops : List.Forall₂ (draft.NameOf plan) plan.source.tops.entries draft.builder.tops.entries)
    (known : ∀ index < plan.groups.length, draft.groupRefs.get? index = some (draft.forwarding index))
    (finished : draft.builder.finish? = .ok h) :
    plan.Homomorphism draft.builder.target h draft.forwarding (draft.image plan) := by
  obtain ⟨nodes, filled, names⟩ := Builder.eq_of_finish? finished
  refine { group := ?group, filled := ?filled, tops := ?tops, node := ?node }
  case group =>
    intro index members listed r member
    have own := plan.groupOf?_eq_some_iff.2 ⟨members, listed, member⟩
    simp only [Draft.image, own]
  case filled =>
    intro index bound
    rw [nodes]
    exact filled _ (copying.groups_lt (known index bound))
  case tops =>
    have same : plan.source.tops.entries.map (fun top => (top.1, draft.image plan top.2)) =
        draft.builder.tops.entries.map id :=
      map_eq_map_of_forall₂ tops fun _ _ _ _ name => Prod.ext name.1.symm name.2.image_eq
    rw [List.map_id] at same
    rw [names, same]
  case node =>
    intro r node visible free found
    obtain ⟨new, maps⟩ := copying.exists_maps tops visible
    have copied := maps
    simp only [Draft.Maps, free] at copied
    rw [nodes, maps.image_eq]
    exact (copying.shows copied List.not_mem_nil).node?_eq found

namespace Drafting

variable {plan : Plan} {label : String} {replacement : Replacement} {draft : Draft}

/-- Once a group was replaced, its reference is known. -/
theorem ensures_replaceGroup (scripted : replacement.Scripted) (copying : draft.Copying plan [])
    (group : List Ref × Nat) : Ensures (replaceGroup plan label replacement group) draft
      (fun _ after => after.Copying plan [] ∧ draft.Extends after ∧
        ∃ r, after.groupRefs.get? group.2 = some r) fun _ => True := by
  refine ensures_bind.2 ((ensures_groupRef copying group.2).mono ?_ fun _ => False.elim)
  rintro slot opened ⟨copyingOpened, first, known⟩
  refine ensures_bind.2 (((scripted plan group.1 slot).keeps opened copyingOpened).mono ?_ fun _ _ => trivial)
  rintro new after ⟨copyingAfter, second⟩
  refine ensures_bind.2 (ensures_get.2 ?_)
  split
  · exact ensures_pure.2 ⟨copyingAfter, first.toExtends.trans second, slot, second.groups known⟩
  · exact ensures_refuse.2 trivial

/-- Once all groups were replaced, their references are known. -/
theorem ensures_replaceGroups (scripted : replacement.Scripted) (copying : draft.Copying plan []) :
    Ensures (plan.groups.zipIdx.forM (replaceGroup plan label replacement)) draft
      (fun _ after => after.Copying plan [] ∧ draft.Extends after ∧
        ∀ index < plan.groups.length, ∃ r, after.groupRefs.get? index = some r) fun _ => True := by
  refine (ensures_forM (fun after => after.Copying plan [] ∧ draft.Extends after)
    (fun group after => ∃ r, after.groupRefs.get? group.2 = some r) ⟨copying, .refl draft⟩ ?_).mono ?_
    fun _ => id
  · rintro group _ before ⟨copyingBefore, so_far⟩
    refine (ensures_replaceGroup scripted copyingBefore group).mono ?_ fun _ => id
    rintro _ after ⟨copyingAfter, later, known⟩
    refine ⟨⟨copyingAfter, so_far.trans later⟩, known, ?_⟩
    rintro other ⟨r, listed⟩
    exact ⟨r, later.groups listed⟩
  · rintro _ after ⟨⟨copyingAfter, later⟩, all, _⟩
    refine ⟨copyingAfter, later, fun index bound => ?_⟩
    refine all (plan.groups[index], index) ?_
    rw [List.mk_mem_zipIdx_iff_getElem?, List.getElem?_eq_getElem bound]

/-- The names are bound in order, and nothing else happens to what the draft remembers. -/
theorem ensures_bindTops (copying : draft.Copying plan []) {bound rest : List (String × Ref)}
    (entries : plan.source.tops.entries = bound ++ rest)
    (related : List.Forall₂ (draft.NameOf plan) bound draft.builder.tops.entries) :
    Ensures (rest.forM (bindTop plan)) draft (fun _ after => after.Copying plan [] ∧
      after.builder.target = draft.builder.target ∧
      (∀ {group r}, draft.groupRefs.get? group = some r → after.groupRefs.get? group = some r) ∧
      List.Forall₂ (after.NameOf plan) plan.source.tops.entries after.builder.tops.entries)
      fun _ => True := by
  induction rest generalizing draft bound with
  | nil =>
    rw [List.append_nil] at entries
    rw [entries]
    exact ensures_pure.2 ⟨copying, rfl, id, related⟩
  | cons top rest ih =>
    obtain ⟨name, old⟩ := top
    have top : old ∈ plan.source.tops.values := by
      refine List.mem_map.2 ⟨(name, old), ?_, rfl⟩
      rw [entries]
      exact List.mem_append_right _ List.mem_cons_self
    refine ensures_bind.2 (ensures_bind.2
      ((ensures_copyWithin copying (plan.source.tops_lt top)).mono ?_ fun _ => False.elim))
    rintro new copied ⟨copyingCopied, appends, maps⟩
    refine ensures_build (fun _ _ => trivial) fun _ builder named => ?_
    have inside : new < copied.builder.size := copyingCopied.lt_of_maps maps
    rw [Builder.addTop, if_pos inside] at named
    cases named
    have before : List.Forall₂ (copied.NameOf plan) bound copied.builder.tops.entries := by
      rw [appends.builder.tops_eq]
      exact related.imp fun _ _ same => ⟨same.1, same.2.later appends.toExtends⟩
    have namedEntries : (copied.builder.tops.insert name new).entries =
        copied.builder.tops.entries ++ [(name, new)] := by
      refine OrderedMap.entries_insert_next entries ?_ new
      symm
      exact map_eq_map_of_forall₂ before fun _ _ _ _ same => same.1.symm
    let next : Draft :=
      { copied with builder := { copied.builder with tops := copied.builder.tops.insert name new } }
    have copyingNext : next.Copying plan [] :=
      ⟨copyingCopied.shows, copyingCopied.copies_lt, copyingCopied.groups_lt, copyingCopied.interned⟩
    have longer : List.Forall₂ (next.NameOf plan) (bound ++ [(name, old)]) next.builder.tops.entries := by
      show List.Forall₂ (copied.NameOf plan) _ (copied.builder.tops.insert name new).entries
      rw [namedEntries]
      exact List.rel_append before (.cons ⟨rfl, maps⟩ .nil)
    have split : plan.source.tops.entries = (bound ++ [(name, old)]) ++ rest := by
      rw [entries, List.append_assoc]
      rfl
    refine (ih copyingNext split longer).mono ?_ fun _ => id
    rintro _ after ⟨copyingAfter, target, groups, all⟩
    exact ⟨copyingAfter, target.trans appends.builder.target_eq, fun known => groups (appends.groups known), all⟩

/-- The graph that replacing the groups makes, if it makes one, carries over all that is visible. -/
theorem ensures_replaceAll (scripted : replacement.Scripted) (target : Target) :
    Ensures (replaceAll plan label replacement) (.start target) (fun h final =>
      (∀ index < plan.groups.length, final.groupRefs.get? index = some (final.forwarding index)) ∧
        plan.Homomorphism target h final.forwarding (final.image plan)) fun _ => True := by
  refine ensures_bind.2 ((ensures_replaceGroups scripted (Draft.copying_start plan target)).mono ?_ fun _ => id)
  rintro _ middle ⟨copyingMiddle, extends_, groups⟩
  have noTops : middle.builder.tops.entries = [] := by
    rw [extends_.builder.tops_eq]
    rfl
  refine ensures_bind.2 ((ensures_bindTops copyingMiddle (List.nil_append _).symm
    (by rw [noTops]; exact .nil)).mono ?_ fun _ => id)
  rintro _ final ⟨copying, targetEq, later, tops⟩
  refine ensures_bind.2 (ensures_get.2 ?_)
  cases finished : final.builder.finish? with
  | error fault => exact ensures_refuse.2 trivial
  | ok h =>
    have known : ∀ index < plan.groups.length,
        final.groupRefs.get? index = some (final.forwarding index) := by
      intro index bound
      obtain ⟨r, listed⟩ := groups index bound
      have here := later listed
      rw [Draft.forwarding, here]
      rfl
    have holds := copying.homomorphism tops known finished
    rw [targetEq, extends_.builder.target_eq] at holds
    exact ensures_bind.2 (ensures_modify.2 (ensures_pure.2 ⟨known, holds⟩))

end Drafting

/-- If replacing groups by what commands make of them has a result, then it carries over every visible
type of the source: the members of a group to the one reference of the group, and every other type as it
is, over the images of its constituents. -/
theorem Graph.replaceGroups_homomorphism {source h : Graph} {label : String} {target : Target}
    {groups : List (List Ref)} {replacement : Replacement} (scripted : replacement.Scripted)
    (done : (source.replaceGroups label target groups replacement).result = .ok h) :
    ∃ (plan : Plan) (final : Draft) (forwarding : Nat → Ref) (image : Ref → Ref),
      Plan.ofGroups? source groups = .ok plan ∧
      (Drafting.replaceAll plan label replacement).run.run (.start target) = (.ok h, final) ∧
      (∀ index < plan.groups.length, final.groupRefs.get? index = some (forwarding index)) ∧
      plan.Homomorphism target h forwarding image := by
  obtain ⟨plan, final, planned, run⟩ := Graph.exists_run_of_replaceGroups done
  obtain ⟨known, holds⟩ := (Drafting.ensures_replaceAll scripted target).of_run run
  exact ⟨plan, final, final.forwarding, final.image plan, planned, run, known, holds⟩

namespace Graph

/-- A record that refers to itself through a union, and another one that holds a record of its own. -/
def holding : Graph :=
  ⟨#[⟨.primitive .string, .empty⟩, ⟨.primitive .null, .empty⟩,
      .required [("name", 0), ("next", 3)] false, ⟨.union (.ofList [1, 2]), .empty⟩,
      .required [("held", 5)] false, .required [("x", 0)] false],
    .ofList [("A", 2), ("B", 4)], firstFault?_eq_none_iff.1 (by decide +kernel)⟩

/-- The program that puts a map of copies of the first record in the place of a group, after it has tried
to merge nothing. -/
def mapping : List Ref → Option (Ref → Program) := fun _ => some fun slot =>
  .perform (.unify .empty .empty none) fun _ =>
  .perform (.copy 2) fun
    | .ref r => .perform (.add ⟨.map r, .empty⟩ (some slot)) fun _ => .done slot
    | _ => .done slot

/-- The record that is held, replaced by the map. -/
def holdingMap : Graph :=
  ⟨#[⟨.map 1, .empty⟩, .required [("name", 2), ("next", 3)] false, ⟨.primitive .string, .empty⟩,
      ⟨.union (.ofList [4, 1]), .empty⟩, ⟨.primitive .null, .empty⟩, .required [("held", 0)] false],
    .ofList [("A", 1), ("B", 5)], firstFault?_eq_none_iff.1 (by decide +kernel)⟩

theorem replaceGroups_holding :
    (holding.replaceGroups "rewrite" .standard [[5]] (Program.replacement ⟨.standard, true⟩ mapping)).result =
      .ok holdingMap := by
  cbv

/-- The record that holds the replaced one is there, over the reference of the group. -/
theorem holding_homomorphism : ((Program.replacement ⟨.standard, true⟩ mapping).Scripted ∧
      (holding.replaceGroups "rewrite" .standard [[5]]
        (Program.replacement ⟨.standard, true⟩ mapping)).result = .ok holdingMap) ∧
    ∃ (plan : Plan) (forwarding : Nat → Ref) (image : Ref → Ref),
      Plan.ofGroups? holding [[5]] = .ok plan ∧ plan.Homomorphism .standard holdingMap forwarding image := by
  have scripted := Program.scripted_replacement ⟨.standard, true⟩ mapping
  refine ⟨⟨scripted, replaceGroups_holding⟩, ?_⟩
  obtain ⟨plan, _, forwarding, image, planned, _, _, holds⟩ :=
    replaceGroups_homomorphism scripted replaceGroups_holding
  exact ⟨plan, forwarding, image, planned, holds⟩

end Graph

end SchemaGraph
