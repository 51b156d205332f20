import SchemaGraph.Proofs.Draft.Agreement
import SchemaGraph.Proofs.Graph.Renumbering
/-!
# Proofs.Draft.Renumbering -- copying does not see the numbers of nodes

Two drafts belong together when they hold one new graph, and remember of the nodes of a renumbered source
what the other remembers of the nodes of the source (`Draft.Renumbers`). What a draft remembers it keeps
under references to the source, or under sets of them in increasing order. Sets have one key exactly when they
have the same elements, so what is found under a key does not depend on the order that references happen to
have (`Graph.Renumbers.unionKey_eq_iff`).

Each step of copying, done on two such drafts, leads to one reference of the new graph and leaves two such
drafts (`Drafting.agree_copy`).
-/

namespace SchemaGraph

set_option autoImplicit false

namespace Ty

variable {image : Ref → Ref} {news : List Ref}

theorem retype_relocate {entries : List (String × Property)} (same : news.length = entries.length) :
    retype (entries.map fun entry => (entry.1, entry.2.relocate image)) news = retype entries news := by
  induction entries generalizing news with
  | nil => rfl
  | cons entry rest ih =>
    cases news with
    | nil => cases same
    | cons r news =>
      rw [List.map_cons, retype, ih (Nat.succ.inj same), retype]
      rfl

/-- If all constituents are replaced, it does not matter by what they were replaced before. -/
theorem withChildren_mapRefs {type : Ty} (same : news.length = type.children.length) :
    (type.mapRefs image).withChildren news = type.withChildren news := by
  cases type with
  | array items =>
    obtain ⟨one, rfl⟩ := List.length_eq_one_iff.1 same
    rfl
  | map values =>
    obtain ⟨one, rfl⟩ := List.length_eq_one_iff.1 same
    rfl
  | record r =>
    have lengths : news.length = r.properties.entries.length := by
      simpa [children, OrderedMap.values] using same
    show Ty.record ⟨⟨retype (r.properties.entries.map _) news, _⟩, r.fixed⟩ = _
    congr 2
    exact OrderedMap.ext (retype_relocate lengths)
  | _ => rfl

end Ty

/-- A primitive type has no constituents to be mapped. -/
theorem Node.relocate_of_isPrimitive (node : Node) {image : Ref → Ref}
    (primitive : node.kind.isPrimitive = true) : node.relocate image = node := by
  have same : node.type.mapRefs image = node.type := by
    refine Ty.mapRefs_eq_self fun child member => ?_
    have none : node.type.children = [] := node.children_of_isPrimitive primitive
    rw [none] at member
    cases member
  rw [relocate, same]

/-- Groups of a source and of a renumbered one, with the same members in the same order. -/
structure Plan.Renumbers (plan plan' : Plan) (image : Ref → Ref) : Prop where
  source : plan.source.Renumbers plan'.source image
  groups : plan'.groups = plan.groups.map (List.map image)
  inside : ∀ group ∈ plan.groups, group ⊆ plan.source.reachable

/-- The drafts hold one new graph, and remember the same of the nodes of a graph and of their images. -/
structure Draft.Renumbers (g : Graph) (image : Ref → Ref) (draft draft' : Draft) : Prop where
  builder : draft'.builder = draft.builder
  groupRefs : draft'.groupRefs = draft.groupRefs
  copied : ∀ r ∈ g.reachable, draft'.copied.get? (image r) = draft.copied.get? r
  unified : ∀ types : OrderedSet Ref, types.toList ⊆ g.reachable →
    draft'.unified.get? (unionKey (types.map image)) = draft.unified.get? (unionKey types)

theorem Draft.renumbers_start (g : Graph) (image : Ref → Ref) (target : Target) :
    (Draft.start target).Renumbers g image (Draft.start target) :=
  ⟨rfl, rfl, fun _ _ => rfl, fun _ _ => rfl⟩

namespace Graph.Renumbers

variable {g g' : Graph} {image : Ref → Ref} (renumbers : g.Renumbers g' image)

include renumbers

/-- Sets of images are remembered under one key exactly when the sets are. -/
theorem unionKey_eq_iff {s t : OrderedSet Ref} (insideS : s.toList ⊆ g.reachable)
    (insideT : t.toList ⊆ g.reachable) :
    unionKey (s.map image) = unionKey (t.map image) ↔ unionKey s = unionKey t := by
  rw [SchemaGraph.unionKey_eq_iff, SchemaGraph.unionKey_eq_iff]
  have images : ∀ {types : OrderedSet Ref}, types.toList ⊆ g.reachable → ∀ {r}, r ∈ g.reachable →
      (image r ∈ types.map image ↔ r ∈ types) := by
    intro types inside r reached
    rw [OrderedSet.mem_map]
    constructor
    · rintro ⟨a, listed, same⟩
      rw [← renumbers.injective a (inside listed) r reached same]
      exact listed
    · exact fun listed => ⟨r, listed, rfl⟩
  constructor
  · intro same r
    by_cases reached : r ∈ g.reachable
    · rw [← images insideS reached, ← images insideT reached, same]
    · exact iff_of_false (fun listed => reached (insideS listed)) fun listed => reached (insideT listed)
  · intro same n
    rw [OrderedSet.mem_map, OrderedSet.mem_map]
    simp only [same]

end Graph.Renumbers

namespace Plan.Renumbers

variable {plan plan' : Plan} {image : Ref → Ref} (renumbers : plan.Renumbers plan' image)

include renumbers

theorem groupOf?_image {r : Ref} (reached : r ∈ plan.source.reachable) :
    plan'.groupOf? (image r) = plan.groupOf? r := by
  apply Option.ext
  intro index
  rw [groupOf?_eq_some_iff, groupOf?_eq_some_iff, renumbers.groups, List.getElem?_map]
  constructor
  · rintro ⟨group', listed, member⟩
    obtain ⟨group, here, rfl⟩ := Option.map_eq_some_iff.1 listed
    obtain ⟨s, inside, same⟩ := List.mem_map.1 member
    have reachedS := renumbers.inside group (List.mem_of_getElem? here) inside
    exact ⟨group, here, renumbers.source.injective s reachedS r reached same ▸ inside⟩
  · rintro ⟨group, here, inside⟩
    exact ⟨group.map image, by rw [here, Option.map_some], List.mem_map_of_mem inside⟩

theorem commonGroup?_image {types : List Ref} (inside : types ⊆ plan.source.reachable) :
    plan'.commonGroup? (types.map image) = plan.commonGroup? types := by
  apply Option.ext
  intro index
  rw [commonGroup?_eq_some_iff, commonGroup?_eq_some_iff, List.forall_mem_map]
  refine and_congr (not_congr List.map_eq_nil_iff) (forall₂_congr fun r listed => ?_)
  rw [renumbers.groupOf?_image (inside listed)]

end Plan.Renumbers

namespace Drafting

variable {plan plan' : Plan} {image : Ref → Ref} (renumbers : plan.Renumbers plan' image)

/-! ## Steps -/

section Steps

variable {α : Type} {g : Graph}

theorem agree_operation {operation : Builder → Except GraphFault (α × Builder)} :
    Agree (Draft.Renumbers g image) (build operation) (build operation) Eq :=
  agree_build (fun _ _ related => related.builder) fun _ _ _ related => { related with builder := rfl }

theorem agree_report {event event' : Event} :
    Agree (Draft.Renumbers g image) (report event) (report event') Eq :=
  agree_modify fun _ _ related => { related with }

theorem agree_groupRef (group : Nat) :
    Agree (Draft.Renumbers g image) (groupRef group) (groupRef group) Eq := by
  refine agree_get.bind fun draft draft' related => ?_
  rw [related.groupRefs]
  cases draft.groupRefs.get? group with
  | some r => exact agree_pure rfl
  | none =>
    refine agree_operation.bind_eq fun r => Agree.bind_eq ?_ fun _ => agree_pure rfl
    exact agree_modify fun _ _ related => { related with groupRefs := by simp only [related.groupRefs] }

end Steps

include renumbers

theorem agree_lookupGroup {types : OrderedSet Ref} (inside : types.toList ⊆ plan.source.reachable) :
    Agree (Draft.Renumbers plan.source image) (lookupGroup plan types)
      (lookupGroup plan' (types.map image)) Eq := by
  unfold lookupGroup
  rw [renumbers.source.toList_map inside, renumbers.commonGroup?_image inside]
  cases plan.commonGroup? types.toList with
  | none => exact agree_pure rfl
  | some group => exact (agree_groupRef group).map fun _ _ => congrArg some

omit renumbers in
theorem agree_lookupUnion {g : Graph} {types : OrderedSet Ref} (inside : types.toList ⊆ g.reachable) :
    Agree (Draft.Renumbers g image) (lookupUnion types) (lookupUnion (types.map image)) Eq :=
  agree_get.bind fun _ _ related => agree_pure (related.unified types inside).symm

theorem agree_registerUnion {types : OrderedSet Ref} (inside : types.toList ⊆ plan.source.reachable)
    (new : Ref) : Agree (Draft.Renumbers plan.source image) (registerUnion types new)
      (registerUnion (types.map image) new) Eq := by
  refine agree_modify fun draft draft' related => { related with unified := ?_ }
  intro others insideOthers
  simp only [OrderedMap.get?_insert, renumbers.source.unionKey_eq_iff inside insideOthers,
    related.unified others insideOthers]

theorem agree_remember {old : Ref} (reached : old ∈ plan.source.reachable) (new : Ref) :
    Agree (Draft.Renumbers plan.source image) (remember old new) (remember (image old) new) Eq := by
  refine agree_modify fun draft draft' related => { related with copied := ?_ }
  intro r reachedR
  have same : image old = image r ↔ old = r :=
    ⟨renumbers.source.injective old reached r reachedR, congrArg image⟩
  simp only [OrderedMap.get?_insert, same, related.copied r reachedR]

/-! ## Copying -/

/-- The copies of a type and of its image are one type of the new graph. The bounds on nesting may
differ. -/
theorem agree_copyWithin (depth depth' : Nat) {old : Ref} (reached : old ∈ plan.source.reachable) :
    Agree (Draft.Renumbers plan.source image) (copyWithin plan depth old)
      (copyWithin plan' depth' (image old)) Eq := by
  induction depth generalizing depth' old with
  | zero => exact agree_throw
  | succ depth ih =>
    cases depth' with
    | zero => exact agree_throw_right
    | succ depth' =>
      rw [copyWithin, copyWithin, renumbers.source.node?_image reached, renumbers.groupOf?_image reached]
      cases found : plan.source.node? old with
      | none => exact agree_throw
      | some node =>
        cases plan.groupOf? old with
        | some group => exact agree_groupRef group
        | none =>
          refine agree_get.bind fun draft draft' related => ?_
          rw [related.copied old reached]
          cases draft.copied.get? old with
          | some new => exact agree_pure rfl
          | none =>
            have kind : (node.relocate image).kind = node.kind := Ty.kind_mapRefs image node.type
            have inside := plan.source.children_subset reached (plan.source.type?_of_node? found)
            simp only [kind]
            split
            · rename_i primitive
              rw [node.relocate_of_isPrimitive primitive]
              refine agree_operation.bind_eq fun new => ?_
              exact (agree_remember renumbers reached new).bind_eq fun _ => agree_pure rfl
            · refine agree_operation.bind_eq fun slot => ?_
              refine (agree_remember renumbers reached slot).bind_eq fun _ => ?_
              have children : (node.relocate image).children = node.children.map image :=
                Ty.children_mapRefs fun a inA b inB =>
                  renumbers.source.injective a (inside inA) b (inside inB)
              rw [children]
              refine Agree.bind (agree_mapM fun child member => ih depth' (inside member)) ?_
              rintro news _ ⟨rfl, length⟩
              rw [Node.relocate, Ty.withChildren_mapRefs length]
              exact agree_operation

theorem agree_copy {old : Ref} (reached : old ∈ plan.source.reachable) :
    Agree (Draft.Renumbers plan.source image) (copy plan old) (copy plan' (image old)) Eq :=
  agree_copyWithin renumbers _ _ reached

end Drafting

end SchemaGraph
