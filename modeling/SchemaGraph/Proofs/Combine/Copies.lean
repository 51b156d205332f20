import SchemaGraph.Proofs.Graph.Relocation
/-!
# Proofs.Combine.Copies -- a round without cliques copies the graph

A round that replaces nothing gives every reachable type one copy, over the copies of its constituents
and as the target wants it (`Graph.CopiedTo`). So it moves the types (`Graph.CopiedTo.relocation`). A graph
that was made for the target keeps every type as it is, so that each name leads to what it led to: two
references have one tree (`Graph.SameTree`) when the types that they lead to, layer by layer, are the same
in all but their places (`Graph.CopiedTo.sameTree`).
-/

namespace SchemaGraph

set_option autoImplicit false

/-! ## Trees -/

/-- The two types are the same but for their constituents, which are related in order. Related types are of
one kind, so the members of unions are related kind by kind. -/
inductive Ty.SameLayer (rel : Ref → Ref → Prop) : Ty → Ty → Prop
  | primitive {p : Primitive} : SameLayer rel (.primitive p) (.primitive p)
  | array {a b : Ref} : rel a b → SameLayer rel (.array a) (.array b)
  | map {a b : Ref} : rel a b → SameLayer rel (.map a) (.map b)
  | enum {cases : OrderedSet String} : SameLayer rel (.enum cases) (.enum cases)
  | union {l r : OrderedSet Ref} : List.Forall₂ rel l.toList r.toList → SameLayer rel (.union l) (.union r)
  | record {l r : Record} : l.fixed = r.fixed →
      List.Forall₂ (fun x y => x.1 = y.1 ∧ x.2.optional = y.2.optional ∧ rel x.2.type y.2.type)
        l.properties.entries r.properties.entries →
      SameLayer rel (.record l) (.record r)

/-- The types of two graphs unfold to one tree: kinds, names of properties and their order, optional and
fixed flags, cases of enumerations and members of unions are the same at every depth. -/
def Graph.SameTree (g : Graph) (a : Ref) (h : Graph) (b : Ref) : Prop :=
  ∃ rel : Ref → Ref → Prop, rel a b ∧ ∀ x y, rel x y →
    ∃ s t, g.type? x = some s ∧ h.type? y = some t ∧ s.SameLayer rel t

/-- The names are the same, in order, and lead to the same trees. -/
def Graph.SameTops (g h : Graph) : Prop :=
  List.Forall₂ (fun x y => x.1 = y.1 ∧ g.SameTree x.2 h y.2) g.tops.entries h.tops.entries

namespace Ty

variable {image : Ref → Ref}

/-- A type over the images of its constituents, if the members of a union have different ones. -/
theorem sameLayer_mapRefs {type : Ty}
    (distinct : ∀ members, type = .union members → (members.toList.map image).Nodup) :
    type.SameLayer (fun x y => x ∈ type.children ∧ image x = y) (type.mapRefs image) := by
  cases type with
  | primitive p => exact .primitive
  | array items => exact .array ⟨List.mem_cons_self, rfl⟩
  | map values => exact .map ⟨List.mem_cons_self, rfl⟩
  | enum cases => exact .enum
  | union members =>
    have images : (members.map image).toList = members.toList.map image :=
      firsts_of_nodup (distinct members rfl)
    refine .union ?_
    rw [images, List.forall₂_map_right_iff, List.forall₂_same]
    exact fun m member => ⟨member, rfl⟩
  | record r =>
    refine .record rfl ?_
    show List.Forall₂ _ r.properties.entries (r.properties.entries.map _)
    rw [List.forall₂_map_right_iff, List.forall₂_same]
    intro entry listed
    exact ⟨rfl, rfl, List.mem_map_of_mem (List.mem_map_of_mem listed), rfl⟩

theorem SameLayer.mono {rel wider : Ref → Ref → Prop} {s t : Ty} (widen : ∀ x y, rel x y → wider x y)
    (same : s.SameLayer rel t) : s.SameLayer wider t := by
  cases same with
  | primitive => exact .primitive
  | array items => exact .array (widen _ _ items)
  | map values => exact .map (widen _ _ values)
  | enum => exact .enum
  | union members => exact .union (members.imp widen)
  | record fixed entries =>
    exact .record fixed (entries.imp fun _ _ ⟨name, optional, types⟩ => ⟨name, optional, widen _ _ types⟩)

/-- What a target makes of a type over images is that type, up to the order of properties. -/
theorem relocates_normalize (target : Target) (type : Ty) :
    type.Relocates image (target.normalize ⟨type.mapRefs image, .empty⟩).type := by
  by_cases isRecord : type.kind = .record
  · obtain ⟨r, rfl⟩ := type.exists_record_of_kind isRecord
    obtain ⟨final, same, fixed, perm⟩ :=
      target.record_normalize ⟨(Ty.record r).mapRefs image, .empty⟩ rfl
    rw [same]
    exact .record fixed perm
  · rw [target.type_normalize_of_kind _ (by rwa [Node.kind, kind_mapRefs])]
    cases type with
    | primitive p => exact .primitive
    | array items => exact .array
    | map values => exact .map
    | enum cases => exact .enum
    | union members =>
      refine .union fun n => ?_
      rw [OrderedSet.map, OrderedSet.mem_ofList, List.mem_map]
      rfl
    | record r => exact absurd rfl isRecord

end Ty

namespace Graph

/-! ## Copies -/

/-- The second graph holds the reachable types of the first at their images, as the target wants them. -/
structure CopiedTo (target : Target) (g h : Graph) (image : Ref → Ref) : Prop where
  type : ∀ {r type}, r ∈ g.reachable → g.type? r = some type →
    h.type? (image r) = some (target.normalize ⟨type.mapRefs image, .empty⟩).type
  tops : h.tops.entries = g.tops.entries.map fun top => (top.1, image top.2)
  shared : ∀ {a b}, a ∈ g.reachable → b ∈ g.reachable → image a = image b →
    a = b ∨ ∃ p, h.type? (image a) = some (.primitive p)

/-- All types are as the target wants them. -/
def MadeFor (g : Graph) (target : Target) : Prop :=
  ∀ {r type}, g.type? r = some type → (target.normalize ⟨type, .empty⟩).type = type

variable {target : Target} {g h : Graph} {image : Ref → Ref}

theorem CopiedTo.relocation (copied : g.CopiedTo target h image) : g.Relocation h image where
  type reached found := ⟨_, copied.type reached found, Ty.relocates_normalize target _⟩
  tops := copied.tops
  shared := copied.shared

/-- Members of a union have different images. -/
theorem CopiedTo.nodup_members (copied : g.CopiedTo target h image) {r : Ref} (reached : r ∈ g.reachable)
    {members : OrderedSet Ref} (found : g.type? r = some (.union members)) :
    (members.toList.map image).Nodup := by
  have inside : ∀ m ∈ members, m ∈ g.reachable := fun m listed =>
    g.reachable_children reached (g.children_of_mem_members (g.mem_members_iff.2 ⟨members, found, listed⟩))
  refine List.Nodup.map_on (fun a inA b inB same => g.eq_of_kind?_eq found inA inB ?_) members.nodup
  rw [← copied.relocation.kind?_image (inside a inA), same, copied.relocation.kind?_image (inside b inB)]

/-- What is as the target wants it stays so over other constituents. -/
theorem normalize_mapRefs {type : Ty} (made : (target.normalize ⟨type, .empty⟩).type = type) :
    (target.normalize ⟨type.mapRefs image, .empty⟩).type = type.mapRefs image := by
  rw [target.type_normalize] at made ⊢
  split
  · rename_i sorts
    rw [if_pos sorts] at made
    have same : type.alphabetized = type := made
    show (type.mapRefs image).alphabetized = type.mapRefs image
    rw [Ty.alphabetized_mapRefs, same]
  · rfl

/-- Copying a graph that was made for the target changes no tree. -/
theorem CopiedTo.sameTree (copied : g.CopiedTo target h image) (made : g.MadeFor target) {r : Ref}
    (reached : r ∈ g.reachable) : g.SameTree r h (image r) := by
  refine ⟨fun x y => x ∈ g.reachable ∧ image x = y, ⟨reached, rfl⟩, ?_⟩
  rintro x _ ⟨reachedX, rfl⟩
  obtain ⟨type, found⟩ := g.exists_type? (g.lt_of_mem_reachable reachedX)
  have there := copied.type reachedX found
  rw [normalize_mapRefs (made found)] at there
  have layer : type.SameLayer (fun x y => x ∈ type.children ∧ image x = y) (type.mapRefs image) := by
    apply Ty.sameLayer_mapRefs
    rintro members rfl
    exact copied.nodup_members reachedX found
  refine ⟨type, _, found, there, layer.mono ?_⟩
  rintro m _ ⟨child, rfl⟩
  exact ⟨g.reachable_children reachedX (g.children_of_type? found ▸ child), rfl⟩

theorem CopiedTo.sameTops (copied : g.CopiedTo target h image) (made : g.MadeFor target) :
    g.SameTops h := by
  rw [SameTops, copied.tops, List.forall₂_map_right_iff, List.forall₂_same]
  intro top listed
  exact ⟨rfl, copied.sameTree made (g.reachable_of_top (List.mem_map_of_mem listed))⟩

end Graph

/-! ## Replacing nothing -/

namespace Plan

variable {plan : Plan} {conflate : Bool} {target : Target} {h : Graph} {trace : Trace}

/-- Every type of the new graph is as the target wants it. -/
theorem Replaces.madeFor (replaces : plan.Replaces conflate target h trace) : h.MadeFor target := by
  intro r type found
  obtain ⟨origin, traced⟩ := replaces.traced (h.lt_of_type? found)
  obtain ⟨node, at_, rfl⟩ := Option.map_eq_some_iff.1 found
  obtain ⟨raw, _, rfl⟩ := replaces.explains traced at_
  show (target.normalize ⟨(target.normalize raw).type, .empty⟩).type = (target.normalize raw).type
  rw [target.type_normalize, target.type_normalize raw]
  split
  · exact raw.type.alphabetized_alphabetized
  · rfl

theorem copyOf_iff (none : plan.groups = []) {old new : Ref} :
    plan.CopyOf trace old new ↔ trace new (.copy old) := by
  have free : plan.groupOf? old = Option.none := by
    rw [groupOf?, none]
    rfl
  rw [CopyOf, free]

section Nothing

variable (replaces : plan.Replaces conflate target h trace) (none : plan.groups = [])

include replaces none

/-- Every reachable type is copied. -/
theorem Replaces.exists_copy {r : Ref} (reached : r ∈ plan.source.reachable) :
    ∃ n, trace n (.copy r) := by
  obtain ⟨t, top, path⟩ := plan.source.mem_reachable_iff.1 reached
  clear reached
  induction path with
  | refl =>
    obtain ⟨entry, listed, rfl⟩ := List.mem_map.1 top
    obtain ⟨new, _, _, stands⟩ := exists_of_mem_left replaces.tops listed
    exact ⟨new.2, (copyOf_iff none).1 stands⟩
  | tail _ child ih =>
    obtain ⟨n, traced⟩ := ih
    obtain ⟨node, found⟩ := replaces.exists_node traced
    obtain ⟨raw, realises, rfl⟩ := replaces.explains traced found
    cases realises with
    | copy source related =>
      rw [Graph.children, source] at child
      obtain ⟨new, _, stands⟩ := exists_of_mem_left related child
      exact ⟨new, (copyOf_iff none).1 stands⟩

/-- Replacing nothing copies the source. -/
theorem Replaces.exists_copiedTo : ∃ image, plan.source.CopiedTo target h image := by
  -- nothing is merged, so whatever stands for a type is its copy, and a type has only one
  choose! image stands using fun r => replaces.exists_copy none (r := r)
  have unique : ∀ {old new}, old ∈ plan.source.reachable → plan.CopyOf trace old new → new = image old :=
    fun reached copy => replaces.unique ((copyOf_iff none).1 copy) (stands _ reached)
  refine ⟨image, ?_, ?_, ?_⟩
  · intro r type reached found
    obtain ⟨node, at_⟩ := replaces.exists_node (stands r reached)
    obtain ⟨raw, realises, rfl⟩ := replaces.explains (stands r reached) at_
    cases realises with
    | @copy _ source news sourceNode related =>
      have typeEq : source.type = type := by
        rw [Graph.type?, sourceNode] at found
        exact Option.some.inj found
      have children : ∀ m ∈ source.children, m ∈ plan.source.reachable := by
        intro m member
        apply plan.source.reachable_children reached
        rw [Graph.children, sourceNode]
        exact member
      have images : news = source.children.map image := by
        have same := map_eq_map_of_forall₂ related fun old member new _ copy =>
          (unique (children old member) copy).symm
        rw [List.map_id'] at same
        exact same.symm
      have whole : source.type.withChildren news = type.mapRefs image := by
        rw [images, Node.children, Ty.withChildren_map, typeEq]
      rw [Graph.type?, at_, whole]
      rfl
  · have same := map_eq_map_of_forall₂ replaces.tops fun old listed new _ (top : new.1 = old.1 ∧ _) =>
      (Prod.ext top.1.symm
        (unique (plan.source.reachable_of_top (List.mem_map_of_mem listed)) top.2).symm :
        (old.1, image old.2) = new)
    rw [List.map_id'] at same
    exact same.symm
  · intro a b reachedA reachedB same
    have other := stands b reachedB
    rw [← same] at other
    rcases replaces.shared (stands a reachedA) other with equal | ⟨_, _, primitive⟩
    · exact .inl (Origin.copy.inj equal)
    · exact .inr primitive

end Nothing

end Plan

end SchemaGraph
