import SchemaGraph.Proofs.Draft.Renumbering
/-!
# Proofs.Merge.Renumbering -- merging does not see the numbers of nodes

What the sorting of types into parts and of their constituents into sets gives for images are the images of
what it gives for the types, in the same order: parts, items, values, records, merged properties. So
unification, done on the images of a set of types, goes through the same steps, and they lead to one
reference of the new graph (`Drafting.agree_unify`). It nests unifications of sets of types, so each function
that takes the unification of smaller sets as an argument is compared for two such arguments that agree
(`Drafting.Corresponds`).
-/

namespace SchemaGraph

set_option autoImplicit false

theorem OrderedSet.isEmpty_map {α β : Type} [DecidableEq β] (f : α → β) (s : OrderedSet α) :
    (s.map f).isEmpty = s.isEmpty := by
  unfold OrderedSet.map OrderedSet.ofList OrderedSet.isEmpty
  cases s.toList <;> rfl

/-- The merged property over the images of its types. -/
def MergedProperty.relocate (image : Ref → Ref) (merged : MergedProperty) : MergedProperty :=
  { merged with types := merged.types.map image }

theorem Graph.Part.subset {g : Graph} {conflate : Bool} {types : List Ref} {kind : Kind}
    {refs : OrderedSet Ref} (part : g.Part conflate types kind refs) (inside : types ⊆ g.reachable) :
    refs.toList ⊆ g.reachable :=
  fun _ member => g.leaves_subset inside (part.leaf member)

namespace Graph.Renumbers

variable {g g' : Graph} {image : Ref → Ref} (renumbers : g.Renumbers g' image)

include renumbers

theorem map_ofList {types : List Ref} (inside : types ⊆ g.reachable) :
    OrderedSet.ofList (types.map image) = (OrderedSet.ofList types).map image :=
  (OrderedSet.map_ofList fun a inA b inB => renumbers.injective a (inside inA) b (inside inB)).symm

/-! ## Parts -/

section Parts

variable {types : List Ref} (inside : types ⊆ g.reachable)

include inside

theorem ofKind_image (kind : Kind) : g'.ofKind (types.map image) kind = (g.ofKind types kind).map image := by
  rw [ofKind, List.filter_map, ofKind]
  congr 1
  refine List.filter_congr fun r listed => ?_
  simp [renumbers.kind?_image (inside listed)]

theorem hasKind_image : g'.hasKind (types.map image) = g.hasKind types := by
  funext kind
  rw [Bool.eq_iff_iff, hasKind_iff, hasKind_iff]
  simp only [List.mem_map]
  constructor
  · rintro ⟨_, ⟨r, listed, rfl⟩, here⟩
    exact ⟨r, listed, (renumbers.kind?_image (inside listed)).symm.trans here⟩
  · rintro ⟨r, listed, here⟩
    exact ⟨image r, ⟨r, listed, rfl⟩, (renumbers.kind?_image (inside listed)).trans here⟩

theorem contributorsTo_image (conflate : Bool) (kind : Kind) :
    g'.contributorsTo conflate (types.map image) kind = (g.contributorsTo conflate types kind).map image := by
  unfold contributorsTo
  rw [renumbers.hasKind_image inside, ← renumbers.map_ofList, List.map_flatMap]
  · congr 2
    funext own
    split
    · exact renumbers.ofKind_image inside own
    · rfl
  · intro r listed
    obtain ⟨own, _, member⟩ := List.mem_flatMap.1 listed
    split at member
    · exact inside (List.mem_of_mem_filter member)
    · cases member

/-- The parts of the images are the images of the parts. -/
theorem contributors_image (conflate : Bool) : g'.contributors conflate (types.map image) =
    (g.contributors conflate types).map fun part => (part.1, part.2.map image) := by
  have leaves := g.leaves_subset inside
  have entries : (Kind.all.map fun kind =>
      (kind, g'.contributorsTo conflate ((g.leaves types).map image) kind)) =
      (Kind.all.map fun kind => (kind, g.contributorsTo conflate (g.leaves types) kind)).map
        fun part => (part.1, part.2.map image) := by
    rw [List.map_map]
    refine List.map_congr_left fun kind _ => ?_
    rw [renumbers.contributorsTo_image leaves]
    rfl
  unfold contributors
  simp only
  rw [renumbers.leaves_image inside, entries, List.filter_map]
  congr 1
  refine List.filter_congr fun part _ => ?_
  rw [Function.comp_apply, OrderedSet.isEmpty_map]

end Parts

/-! ## Constituents -/

section Constituents

variable {refs : OrderedSet Ref} (inside : refs.toList ⊆ g.reachable)

include inside

omit renumbers in
theorem itemsOf_subset : (g.itemsOf refs).toList ⊆ g.reachable := by
  intro items member
  obtain ⟨r, listed, child⟩ := g.mem_children_of_mem_itemsOf member
  exact g.reachable_children (inside listed) child

omit renumbers in
theorem valuesOf_subset : (g.valuesOf refs).toList ⊆ g.reachable := by
  intro value member
  obtain ⟨r, listed, child⟩ := g.mem_children_of_mem_valuesOf member
  exact g.reachable_children (inside listed) child

theorem recordsOf_image : g'.recordsOf (refs.map image) = (g.recordsOf refs).map (Record.relocate image) := by
  rw [recordsOf, renumbers.toList_map inside, List.filterMap_map, recordsOf, List.map_filterMap]
  exact List.filterMap_congr fun r listed => renumbers.record?_image (inside listed)

theorem casesOf_image : g'.casesOf (refs.map image) = g.casesOf refs := by
  rw [casesOf, renumbers.toList_map inside, List.flatMap_map, casesOf]
  congr 1
  refine List.flatMap_congr fun r listed => ?_
  rw [renumbers.type?_image (inside listed)]
  cases g.type? r with
  | none => rfl
  | some type => cases type <;> rfl

theorem itemsOf_image : g'.itemsOf (refs.map image) = (g.itemsOf refs).map image := by
  have subset : _ ⊆ g.reachable := fun r member => itemsOf_subset inside (OrderedSet.mem_ofList.2 member)
  rw [itemsOf, renumbers.toList_map inside, List.filterMap_map, itemsOf, ← renumbers.map_ofList subset,
    List.map_filterMap]
  congr 1
  refine List.filterMap_congr fun r listed => ?_
  rw [Function.comp_apply, renumbers.type?_image (inside listed)]
  cases g.type? r with
  | none => rfl
  | some type => cases type <;> rfl

theorem valuesOf_image : g'.valuesOf (refs.map image) = (g.valuesOf refs).map image := by
  have subset : _ ⊆ g.reachable := fun r member => valuesOf_subset inside (OrderedSet.mem_ofList.2 member)
  rw [valuesOf, renumbers.toList_map inside, List.flatMap_map, valuesOf, ← renumbers.map_ofList subset,
    List.map_flatMap]
  congr 1
  refine List.flatMap_congr fun r listed => ?_
  rw [renumbers.type?_image (inside listed)]
  cases g.type? r with
  | none => rfl
  | some type =>
    cases type with
    | record record => exact record.types_relocate image
    | _ => rfl

end Constituents

/-! ## Merged properties -/

theorem mergeProperty_image {records : List Record}
    (inside : ∀ record ∈ records, (Ty.record record).children ⊆ g.reachable) (name : String) :
    mergeProperty (records.map (Record.relocate image)) name =
      (mergeProperty records name).relocate image := by
  have having : (records.map (Record.relocate image)).filterMap (fun record => record.property? name) =
      (records.filterMap fun record => record.property? name).map (Property.relocate image) := by
    rw [List.filterMap_map, List.map_filterMap]
    exact List.filterMap_congr fun record _ => record.property?_relocate image name
  have types : (records.filterMap fun record => record.property? name).map Property.type ⊆ g.reachable := by
    intro t listed
    obtain ⟨p, member, rfl⟩ := List.mem_map.1 listed
    obtain ⟨record, known, found⟩ := List.mem_filterMap.1 member
    exact inside record known (Ty.mem_children_of_property? found)
  unfold mergeProperty MergedProperty.relocate
  simp only [having, List.map_map, List.length_map, List.any_map]
  rw [← renumbers.map_ofList types, List.map_map]
  rfl

theorem mergeProperties_image {records : List Record}
    (inside : ∀ record ∈ records, (Ty.record record).children ⊆ g.reachable) :
    mergeProperties (records.map (Record.relocate image)) =
      (mergeProperties records).map (MergedProperty.relocate image) := by
  unfold mergeProperties
  rw [List.flatMap_map, List.map_map]
  simp only [Record.keys_relocate]
  exact List.map_congr_left fun name _ => renumbers.mergeProperty_image inside name

end Graph.Renumbers

namespace Drafting

/-! ## Building -/

/-- The unifications of any set of types and of its images come to one type of the new graph. -/
def Corresponds (g : Graph) (image : Ref → Ref) (inner inner' : OrderedSet Ref → Drafting Ref) : Prop :=
  ∀ types : OrderedSet Ref, types.toList ⊆ g.reachable →
    Agree (Draft.Renumbers g image) (inner types) (inner' (types.map image)) Eq

variable {plan plan' : Plan} {image : Ref → Ref} (renumbers : plan.Renumbers plan' image)

include renumbers

theorem agree_combineAttributes (registry : Registry) {refs : List Ref} (inside : refs ⊆ plan.source.reachable) :
    Agree (Draft.Renumbers plan.source image) (combineAttributes plan registry refs)
      (combineAttributes plan' registry (refs.map image)) Eq := by
  have bags : (refs.map image).map plan'.source.attributes = refs.map plan.source.attributes := by
    rw [List.map_map]
    exact List.map_congr_left fun r listed => renumbers.source.attributes_image (inside listed)
  unfold combineAttributes
  simp only [bags]
  refine Agree.bind_eq ?_ fun _ => agree_pure rfl
  generalize registry.dropped (refs.map plan.source.attributes) = dropped
  have reports : Agree (Draft.Renumbers plan.source image)
      (dropped.forM fun kind => report (.dropped kind))
      ((dropped.map id).forM fun kind => report (.dropped kind)) Eq :=
    agree_forM fun kind _ => agree_report
  rw [List.map_id] at reports
  exact reports

section Building

variable {inner inner' : OrderedSet Ref → Drafting Ref} (unifies : Corresponds plan.source image inner inner')

include unifies

theorem agree_buildRecord {records : List Record}
    (inside : ∀ record ∈ records, (Ty.record record).children ⊆ plan.source.reachable) :
    Agree (Draft.Renumbers plan.source image) (buildRecord inner records)
      (buildRecord inner' (records.map (Record.relocate image))) Eq := by
  have each : ∀ merged ∈ mergeProperties records, Agree (Draft.Renumbers plan.source image)
      (buildProperty inner merged) (buildProperty inner' (merged.relocate image)) Eq := by
    intro merged listed
    refine (unifies merged.types fun t member => ?_).bind_eq fun new => agree_pure rfl
    obtain ⟨record, known, p, found, rfl⟩ := exists_property_of_mem_types listed member
    exact inside record known (Ty.mem_children_of_property? found)
  unfold buildRecord
  rw [renumbers.source.mergeProperties_image inside]
  refine (agree_mapM each).bind ?_
  rintro news _ ⟨rfl, _⟩
  exact agree_pure (by rw [List.any_map]; rfl)

theorem agree_buildKind {kind : Kind} {refs : OrderedSet Ref} (inside : refs.toList ⊆ plan.source.reachable)
    (attributes : Bag) (slot : Ref) :
    Agree (Draft.Renumbers plan.source image) (buildKind plan inner kind refs attributes slot)
      (buildKind plan' inner' kind (refs.map image) attributes slot) Eq := by
  cases kind with
  | enum =>
    rw [buildKind, buildKind, renumbers.source.casesOf_image inside]
    exact agree_operation
  | array =>
    rw [buildKind, buildKind, renumbers.source.itemsOf_image inside]
    exact (unifies _ (Graph.Renumbers.itemsOf_subset inside)).bind_eq fun _ => agree_operation
  | map =>
    rw [buildKind, buildKind, renumbers.source.valuesOf_image inside]
    exact (unifies _ (Graph.Renumbers.valuesOf_subset inside)).bind_eq fun _ => agree_operation
  | record =>
    rw [buildKind, buildKind, renumbers.source.recordsOf_image inside]
    refine (agree_buildRecord renumbers unifies ?_).bind_eq fun _ => agree_operation
    intro record listed
    obtain ⟨r, known, found⟩ := plan.source.mem_recordsOf.1 listed
    exact plan.source.children_subset (inside known) found
  | union => exact agree_throw
  | _ =>
    show Agree _ (addPrimitive _ attributes _) (addPrimitive _ attributes _) Eq
    exact agree_operation

omit unifies in
theorem agree_alone? {refs : OrderedSet Ref} (inside : refs.toList ⊆ plan.source.reachable) (slot : Ref) :
    Agree (Draft.Renumbers plan.source image) (alone? plan refs slot) (alone? plan' (refs.map image) slot)
      fun single single' => single' = single.map image ∧ ∀ r ∈ single, r ∈ plan.source.reachable := by
  have nothing : Agree (Draft.Renumbers plan.source image) (pure none : Drafting (Option Ref)) (pure none)
      fun single single' => single' = single.map image ∧ ∀ r ∈ single, r ∈ plan.source.reachable :=
    agree_pure ⟨rfl, nofun⟩
  unfold alone?
  rw [renumbers.source.toList_map inside]
  cases listed : refs.toList with
  | nil => exact nothing
  | cons single others =>
    cases others with
    | cons second rest => exact nothing
    | nil =>
      refine (agree_lookupGroup renumbers inside).bind_eq fun group => agree_pure ?_
      split
      · exact ⟨rfl, nofun⟩
      · refine ⟨rfl, fun r member => ?_⟩
        cases member
        exact inside (listed ▸ List.mem_cons_self)

theorem agree_buildMember (registry : Registry) (slot : Ref) {part : Kind × OrderedSet Ref}
    (inside : part.2.toList ⊆ plan.source.reachable) :
    Agree (Draft.Renumbers plan.source image) (buildMember plan registry inner slot part)
      (buildMember plan' registry inner' slot (part.1, part.2.map image)) Eq := by
  refine (agree_alone? renumbers inside slot).bind ?_
  rintro single _ ⟨rfl, reached⟩
  cases single with
  | some single => exact agree_copy renumbers (reached single rfl)
  | none =>
    refine (agree_lookupUnion inside).bind_eq fun known => ?_
    cases known with
    | some r => exact agree_pure rfl
    | none =>
      refine agree_operation.bind_eq fun member => ?_
      refine (agree_registerUnion renumbers inside member).bind_eq fun _ => ?_
      rw [renumbers.source.toList_map inside]
      refine (agree_combineAttributes renumbers registry inside).bind_eq fun attributes => ?_
      exact agree_buildKind renumbers unifies inside attributes member

theorem agree_buildParts (registry : Registry) (attributes : Bag) (slot : Ref)
    {parts : List (Kind × OrderedSet Ref)} (inside : ∀ part ∈ parts, part.2.toList ⊆ plan.source.reachable) :
    Agree (Draft.Renumbers plan.source image) (buildParts plan registry inner attributes slot parts)
      (buildParts plan' registry inner' attributes slot (parts.map fun part => (part.1, part.2.map image)))
      Eq := by
  have union : Agree (Draft.Renumbers plan.source image)
      (do
        let members ← parts.mapM (buildMember plan registry inner slot)
        add ⟨.union (.ofList members), attributes⟩ (some slot))
      (do
        let members ← (parts.map fun part => (part.1, part.2.map image)).mapM
          (buildMember plan' registry inner' slot)
        add ⟨.union (.ofList members), attributes⟩ (some slot)) Eq := by
    refine (agree_mapM fun part listed =>
      agree_buildMember renumbers unifies registry slot (inside part listed)).bind ?_
    rintro members _ ⟨rfl, _⟩
    exact agree_operation
  rcases parts with _ | ⟨⟨kind, refs⟩, _ | ⟨second, rest⟩⟩
  · exact union
  · exact agree_buildKind renumbers unifies (inside _ List.mem_cons_self) attributes slot
  · exact union

end Building

/-! ## Unifying -/

theorem agree_known? {types : OrderedSet Ref} (inside : types.toList ⊆ plan.source.reachable) :
    Agree (Draft.Renumbers plan.source image) (known? plan types) (known? plan' (types.map image)) Eq := by
  refine (agree_lookupGroup renumbers inside).bind_eq fun grouped => ?_
  cases grouped with
  | some r => exact agree_pure rfl
  | none =>
    refine (agree_lookupUnion inside).bind_eq fun unified => ?_
    cases unified with
    | some r => exact agree_pure rfl
    | none =>
      rw [renumbers.source.toList_map inside]
      match listed : types.toList with
      | [] => exact agree_pure rfl
      | [single] =>
        have reached := inside (listed ▸ List.mem_cons_self)
        exact (agree_copy renumbers reached).map fun _ _ => congrArg some
      | _ :: _ :: _ => exact agree_pure rfl

theorem agree_unifyInto (unifier : Unifier) {inner inner' : OrderedSet Ref → Drafting Ref}
    (unifies : Corresponds plan.source image inner inner') {types : OrderedSet Ref}
    (inside : types.toList ⊆ plan.source.reachable) (attributes : Bag) (slot : Ref) :
    Agree (Draft.Renumbers plan.source image) (unifyInto plan unifier inner types attributes slot)
      (unifyInto plan' unifier inner' (types.map image) attributes slot) Eq := by
  have checked : Agree (Draft.Renumbers plan.source image) (checkInside plan types)
      (checkInside plan' (types.map image)) Eq := by
    unfold checkInside
    split
    · exact agree_throw
    · split
      · exact agree_throw_right
      · exact agree_pure rfl
  refine (agree_registerUnion renumbers inside slot).bind_eq fun _ => checked.bind_eq fun _ => ?_
  rw [renumbers.source.toList_map inside, renumbers.source.contributors_image inside]
  refine agree_report.bind_eq fun _ => agree_buildParts renumbers unifies _ attributes slot ?_
  exact fun part listed => ((plan.source.mem_contributors _).1 listed).subset inside

/-- The unifications of a set of types and of its images come to one type of the new graph. The bounds on
nesting may differ. -/
theorem agree_unifyWithin (unifier : Unifier) (depth depth' : Nat) {types : OrderedSet Ref}
    (inside : types.toList ⊆ plan.source.reachable) (attributes : Bag) (slot? : Option Ref) :
    Agree (Draft.Renumbers plan.source image) (unifyWithin plan unifier depth types attributes slot?)
      (unifyWithin plan' unifier depth' (types.map image) attributes slot?) Eq := by
  induction depth generalizing depth' types attributes slot? with
  | zero => exact agree_throw
  | succ depth ih =>
    cases depth' with
    | zero => exact agree_throw_right
    | succ depth' =>
      unfold unifyWithin
      rw [OrderedSet.isEmpty_map]
      have nested : Corresponds plan.source image
          (fun types => do
            let attributes ← combineAttributes plan unifier.registry types.toList
            unifyWithin plan unifier depth types attributes none)
          (fun types => do
            let attributes ← combineAttributes plan' unifier.registry types.toList
            unifyWithin plan' unifier depth' types attributes none) := by
        intro smaller insideSmaller
        have combined := agree_combineAttributes renumbers unifier.registry insideSmaller
        rw [← renumbers.source.toList_map insideSmaller] at combined
        exact combined.bind_eq fun bag => ih depth' insideSmaller bag none
      simp only
      split
      · exact agree_throw
      · cases slot? with
        | some slot => exact agree_unifyInto renumbers unifier nested inside attributes slot
        | none =>
          refine (agree_known? renumbers inside).bind_eq fun known => ?_
          cases known with
          | some r => exact agree_pure rfl
          | none =>
            refine agree_operation.bind_eq fun slot => ?_
            exact agree_unifyInto renumbers unifier nested inside attributes slot

theorem agree_unify (unifier : Unifier) {types : OrderedSet Ref}
    (inside : types.toList ⊆ plan.source.reachable) (attributes : Bag) (slot? : Option Ref) :
    Agree (Draft.Renumbers plan.source image) (unify plan unifier types attributes slot?)
      (unify plan' unifier (types.map image) attributes slot?) Eq :=
  (agree_unifyWithin renumbers unifier _ _ inside attributes slot?).adapt

end Drafting

end SchemaGraph
