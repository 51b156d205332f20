import Mathlib.Data.Finset.Card
import SchemaGraph.Proofs.Combine.Count
import SchemaGraph.Proofs.Similarity.Overlap
/-!
# Proofs.Graph.Relocation -- a graph with its types at other places

Copying a graph moves its reachable types to other places, and primitive types of one kind may come
to share a place (`Graph.Relocation`). What a comparison finds alike in the new graph was alike in
the old one: a relation that matches the images matches the originals
(`Graph.Relocation.sameShape_of_image`), for a shared place holds a primitive type, which owes
nothing. Two records that are similar in the new graph were similar in the old one if the cases of
their properties differ in kind (`Graph.Relocation.similar_of_image`); otherwise cases may have come
to share a place.

So a search that finds nothing in the old graph finds nothing in the new one
(`Graph.Relocation.similarityCliques_eq_nil`), and the new graph has as many records
(`Graph.Relocation.recordCount_eq`).
-/

namespace SchemaGraph

set_option autoImplicit false

open Relation

namespace Graph

/-! ## What a type unfolds to -/

variable (g : Graph)

theorem reachable_of_unfolds {r m : Ref} (reached : r ∈ g.reachable) (path : g.Unfolds r m) :
    m ∈ g.reachable := by
  induction path with
  | refl => exact reached
  | tail _ member ih => exact g.reachable_children ih (g.children_of_mem_members member)

theorem mem_cases_iff {r m : Ref} (reached : r ∈ g.reachable) : m ∈ g.cases r ↔
    g.Unfolds r m ∧ g.kind? m ≠ some .union ∧ g.kind? m ≠ some .null := by
  rw [OrderedSet.mem_def, cases, List.mem_filter, g.mem_leaves_iff, decide_eq_true_eq]
  constructor
  · rintro ⟨⟨_, plain, t, listed, path⟩, notNull⟩
    cases List.mem_singleton.1 listed
    exact ⟨path, plain, notNull⟩
  · rintro ⟨path, plain, notNull⟩
    have inside := g.lt_of_mem_reachable (g.reachable_of_unfolds reached path)
    exact ⟨⟨inside, plain, r, List.mem_cons_self, path⟩, notNull⟩

end Graph

/-! ## One type -/

/-- The property over the image of its type. -/
def Property.relocate (image : Ref → Ref) (p : Property) : Property := { p with type := image p.type }

/-- The second type is the first one over the images of its constituents, up to the order of
properties. -/
inductive Ty.Relocates (image : Ref → Ref) : Ty → Ty → Prop
  | primitive {p : Primitive} : Relocates image (.primitive p) (.primitive p)
  | array {items : Ref} : Relocates image (.array items) (.array (image items))
  | map {values : Ref} : Relocates image (.map values) (.map (image values))
  | enum {cases : OrderedSet String} : Relocates image (.enum cases) (.enum cases)
  | union {olds news : OrderedSet Ref} : (∀ n, n ∈ news ↔ ∃ m ∈ olds, image m = n) →
      Relocates image (.union olds) (.union news)
  | record {old new : Record} : new.fixed = old.fixed →
      new.properties.entries.Perm (old.properties.mapValues (Property.relocate image)).entries →
      Relocates image (.record old) (.record new)

theorem OrderedMap.lookup_map {κ β γ : Type} [DecidableEq κ] (f : β → γ) (k : κ) (xs : List (κ × β)) :
    lookup k (xs.map fun entry => (entry.1, f entry.2)) = (lookup k xs).map f := by
  induction xs with
  | nil => rfl
  | cons entry rest ih =>
    obtain ⟨j, v⟩ := entry
    simp only [List.map_cons, lookup]
    split
    · rfl
    · exact ih

namespace Ty

theorem mem_children_of_property? {record : Record} {name : String} {p : Property}
    (found : record.property? name = some p) : p.type ∈ (Ty.record record).children :=
  List.mem_map_of_mem (List.mem_map_of_mem (OrderedMap.get?_eq_some_iff.1 found))

variable {image : Ref → Ref} {s t s' t' : Ty} {old new : Record}

theorem property?_relocates
    (perm : new.properties.entries.Perm (old.properties.mapValues (Property.relocate image)).entries)
    (name : String) : new.property? name = (old.property? name).map (Property.relocate image) :=
  (OrderedMap.get?_eq_of_perm perm name).trans (OrderedMap.lookup_map _ name old.properties.entries)

theorem mem_keys_relocates
    (perm : new.properties.entries.Perm (old.properties.mapValues (Property.relocate image)).entries)
    {name : String} : name ∈ new.properties.keys ↔ name ∈ old.properties.keys := by
  rw [← OrderedMap.keys_mapValues (Property.relocate image) old.properties]
  exact (perm.map Prod.fst).mem_iff

theorem Relocates.kind_eq (relocates : s.Relocates image s') : s'.kind = s.kind := by
  cases relocates <;> rfl

theorem Relocates.mem_children (relocates : s.Relocates image s') {n : Ref} :
    n ∈ s'.children ↔ ∃ m ∈ s.children, image m = n := by
  cases relocates with
  | primitive => simp [children]
  | array => simp [children, eq_comm]
  | map => simp [children, eq_comm]
  | enum => simp [children]
  | union members => exact members n
  | record _ perm =>
    have types := ((perm.map Prod.snd).map Property.type).mem_iff (a := n)
    simp only [children, OrderedMap.values]
    rw [types]
    simp [OrderedMap.mapValues, Property.relocate]

theorem size_relocates
    (perm : new.properties.entries.Perm (old.properties.mapValues (Property.relocate image)).entries) :
    new.size = old.size := by
  have lengths := perm.length_eq
  rw [OrderedMap.mapValues, List.length_map] at lengths
  exact lengths

/-- The images of the members have the same kinds. -/
theorem exists_kind_relocates {old? new? : Ref → Option Kind} {olds news : OrderedSet Ref}
    (images : ∀ n, n ∈ news ↔ ∃ m ∈ olds, image m = n)
    (kinds : ∀ m ∈ olds, new? (image m) = old? m) (kind : Option Kind) :
    (∃ n ∈ news, new? n = kind) ↔ ∃ m ∈ olds, old? m = kind := by
  constructor
  · rintro ⟨n, listed, rfl⟩
    obtain ⟨m, member, rfl⟩ := (images n).1 listed
    exact ⟨m, member, (kinds m member).symm⟩
  · rintro ⟨m, member, rfl⟩
    exact ⟨image m, (images _).2 ⟨m, member, rfl⟩, kinds m member⟩

/-- Types that match where they are now matched where they were. -/
theorem Alike.of_relocates {old? new? : Ref → Option Kind} {rel : Ref → Ref → Prop}
    (one : s.Relocates image s') (other : t.Relocates image t')
    (kinds : ∀ m, m ∈ s.children ∨ m ∈ t.children → new? (image m) = old? m)
    (alike : s'.Alike new? rel t') :
    s.Alike old? (fun x y => x ∈ s.children ∧ y ∈ t.children ∧ rel (image x) (image y)) t := by
  cases alike with
  | primitive =>
    cases one
    cases other
    exact .primitive
  | array items =>
    cases one
    cases other
    exact .array ⟨List.mem_cons_self, List.mem_cons_self, items⟩
  | map values =>
    cases one
    cases other
    exact .map ⟨List.mem_cons_self, List.mem_cons_self, values⟩
  | enum cases =>
    cases one
    cases other
    exact .enum cases
  | union sameKinds members =>
    cases one with
    | @union olds _ imagesL =>
      cases other with
      | @union olds' _ imagesR =>
        have kindL : ∀ m ∈ olds, new? (image m) = old? m := fun m inL => kinds m (.inl inL)
        have kindR : ∀ m ∈ olds', new? (image m) = old? m := fun m inR => kinds m (.inr inR)
        refine .union (fun kind => ?_) ?_
        · rw [← exists_kind_relocates imagesL kindL, sameKinds, exists_kind_relocates imagesR kindR]
        · intro m inL n inR same
          have inL' := (imagesL _).2 ⟨m, inL, rfl⟩
          have inR' := (imagesR _).2 ⟨n, inR, rfl⟩
          refine ⟨inL, inR, members _ inL' _ inR' ?_⟩
          rw [kindL m inL, kindR n inR, same]
  | record names types =>
    cases one with
    | @record old _ _ perm =>
      cases other with
      | @record old' _ _ perm' =>
        refine .record (fun name => ?_) ?_
        · rw [← mem_keys_relocates perm, ← mem_keys_relocates perm', names]
        · intro name p q foundP foundQ
          have movedP := (property?_relocates perm name).trans (congrArg _ foundP)
          have movedQ := (property?_relocates perm' name).trans (congrArg _ foundQ)
          obtain ⟨optional, related⟩ := types name _ _ movedP movedQ
          exact ⟨optional, mem_children_of_property? foundP, mem_children_of_property? foundQ, related⟩

end Ty

namespace Graph

theorem reachable_of_property (g : Graph) {r : Ref} {record : Record} {name : String} {p : Property}
    (reached : r ∈ g.reachable) (found : g.record? r = some record)
    (property : record.property? name = some p) : p.type ∈ g.reachable := by
  apply g.reachable_children reached
  rw [g.children_of_type? (g.record?_eq_some_iff.1 found)]
  exact Ty.mem_children_of_property? property

/-- The second graph holds the reachable types of the first at their images. Only primitive types share a
place. -/
structure Relocation (g h : Graph) (image : Ref → Ref) : Prop where
  type : ∀ {r type}, r ∈ g.reachable → g.type? r = some type →
    ∃ moved, h.type? (image r) = some moved ∧ type.Relocates image moved
  tops : h.tops.entries = g.tops.entries.map fun top => (top.1, image top.2)
  shared : ∀ {a b}, a ∈ g.reachable → b ∈ g.reachable → image a = image b →
    a = b ∨ ∃ p, h.type? (image a) = some (.primitive p)

namespace Relocation

variable {g h : Graph} {image : Ref → Ref} (moves : g.Relocation h image)

include moves

/-! ## Reachable types -/

/-- What is at an image was relocated. -/
theorem exists_relocates {r : Ref} (reached : r ∈ g.reachable) :
    ∃ type moved, g.type? r = some type ∧ h.type? (image r) = some moved ∧ type.Relocates image moved := by
  obtain ⟨type, found⟩ := g.exists_type? (g.lt_of_mem_reachable reached)
  obtain ⟨moved, there, relocates⟩ := moves.type reached found
  exact ⟨type, moved, found, there, relocates⟩

theorem kind?_image {r : Ref} (reached : r ∈ g.reachable) : h.kind? (image r) = g.kind? r := by
  obtain ⟨type, moved, found, there, relocates⟩ := moves.exists_relocates reached
  rw [g.kind?_of_type? found, h.kind?_of_type? there, relocates.kind_eq]

theorem mem_children_image {r n : Ref} (reached : r ∈ g.reachable) :
    n ∈ h.children (image r) ↔ ∃ m ∈ g.children r, image m = n := by
  obtain ⟨type, moved, found, there, relocates⟩ := moves.exists_relocates reached
  rw [g.children_of_type? found, h.children_of_type? there]
  exact relocates.mem_children

/-- The reachable types are the images of reachable types. -/
theorem mem_reachable_iff {n : Ref} : n ∈ h.reachable ↔ ∃ r ∈ g.reachable, image r = n := by
  have tops : h.tops.values = g.tops.values.map image := by
    simp [OrderedMap.values, moves.tops]
  constructor
  · intro reached
    obtain ⟨t, top, path⟩ := h.mem_reachable_iff.1 reached
    induction path with
    | refl =>
      rw [tops] at top
      obtain ⟨old, oldTop, rfl⟩ := List.mem_map.1 top
      exact ⟨old, g.reachable_of_top oldTop, rfl⟩
    | tail before child ih =>
      obtain ⟨r, reachedR, rfl⟩ := ih (h.mem_reachable_iff.2 ⟨t, top, before⟩)
      obtain ⟨m, childM, rfl⟩ := (moves.mem_children_image reachedR).1 child
      exact ⟨m, g.reachable_children reachedR childM, rfl⟩
  · rintro ⟨r, reached, rfl⟩
    obtain ⟨t, top, path⟩ := g.mem_reachable_iff.1 reached
    have reachedT := g.reachable_of_top top
    have topT : image t ∈ h.reachable := by
      apply h.reachable_of_top
      rw [tops]
      exact List.mem_map_of_mem top
    clear reached
    induction path with
    | refl => exact topT
    | tail before child ih =>
      have reachedB := g.mem_reachable_iff.2 ⟨t, top, before⟩
      exact h.reachable_children ih ((moves.mem_children_image reachedB).2 ⟨_, child, rfl⟩)

theorem mem_reachable_image {r : Ref} (reached : r ∈ g.reachable) : image r ∈ h.reachable :=
  moves.mem_reachable_iff.2 ⟨r, reached, rfl⟩

/-- Records have places of their own. -/
theorem eq_of_image_eq {a b : Ref} (reachedA : a ∈ g.reachable) (reachedB : b ∈ g.reachable)
    (isRecord : g.kind? a = some .record) (same : image a = image b) : a = b := by
  rcases moves.shared reachedA reachedB same with equal | ⟨p, there⟩
  · exact equal
  · have kind := (moves.kind?_image reachedA).symm.trans (h.kind?_of_type? there)
    rw [isRecord] at kind
    cases p <;> cases kind

/-- There are as many records. -/
theorem recordCount_eq : h.recordCount = g.recordCount := by
  have images : h.recordSet = g.recordSet.image image := by
    ext n
    rw [Graph.mem_recordSet, Finset.mem_image, moves.mem_reachable_iff]
    constructor
    · rintro ⟨⟨r, reached, rfl⟩, isRecord⟩
      rw [moves.kind?_image reached] at isRecord
      exact ⟨r, Graph.mem_recordSet.2 ⟨reached, isRecord⟩, rfl⟩
    · rintro ⟨r, member, rfl⟩
      obtain ⟨reached, isRecord⟩ := Graph.mem_recordSet.1 member
      exact ⟨⟨r, reached, rfl⟩, (moves.kind?_image reached).trans isRecord⟩
  rw [← h.card_recordSet, ← g.card_recordSet, images]
  refine Finset.card_image_of_injOn fun a inA b inB same => ?_
  obtain ⟨reachedA, isRecord⟩ := Graph.mem_recordSet.1 inA
  exact moves.eq_of_image_eq reachedA (Graph.mem_recordSet.1 inB).1 isRecord same

/-! ## Shapes -/

theorem alikeAt_of_image {rel : Ref → Ref → Prop} {a b : Ref} (reachedA : a ∈ g.reachable)
    (reachedB : b ∈ g.reachable) (alike : h.AlikeAt rel (image a) (image b)) :
    g.AlikeAt (fun x y => x ∈ g.reachable ∧ y ∈ g.reachable ∧ rel (image x) (image y)) a b := by
  obtain ⟨s, s', foundA, thereA, one⟩ := moves.exists_relocates reachedA
  obtain ⟨t, t', foundB, thereB, other⟩ := moves.exists_relocates reachedB
  obtain ⟨left, right, thereA', thereB', layer⟩ := alike
  have sameL : left = s' := Option.some.inj (thereA'.symm.trans thereA)
  have sameR : right = t' := Option.some.inj (thereB'.symm.trans thereB)
  subst sameL sameR
  have childA : ∀ m ∈ s.children, m ∈ g.reachable := fun m member =>
    g.reachable_children reachedA (g.children_of_type? foundA ▸ member)
  have childB : ∀ m ∈ t.children, m ∈ g.reachable := fun m member =>
    g.reachable_children reachedB (g.children_of_type? foundB ▸ member)
  refine ⟨s, t, foundA, foundB, (layer.of_relocates one other ?_).mono ?_⟩
  · exact fun m member => moves.kind?_image (member.elim (childA m) (childB m))
  · rintro x y ⟨inA, inB, related⟩
    exact ⟨childA x inA, childB y inB, related⟩

/-- A matching relation between images is one between the originals: types that share a place are
primitive. -/
theorem matching_of_image {rel : Ref → Ref → Prop} (matching : h.Matching rel) :
    g.Matching fun x y => x ∈ g.reachable ∧ y ∈ g.reachable ∧
      (image x = image y ∨ rel (image x) (image y)) ∧ x ≠ y := by
  rintro a b ⟨reachedA, reachedB, related, differ⟩
  -- types that come to share a place match whatever the relation is, for they have no constituents
  rcases related with same | related
  · obtain ⟨p, there⟩ := (moves.shared reachedA reachedB same).resolve_left differ
    have primitive : ∀ {r}, r ∈ g.reachable → h.type? (image r) = some (.primitive p) →
        g.type? r = some (.primitive p) := by
      intro r reached there
      obtain ⟨type, moved, found, there', relocates⟩ := moves.exists_relocates reached
      rw [there] at there'
      cases there'
      cases relocates
      exact found
    exact ⟨_, _, primitive reachedA there, primitive reachedB (same ▸ there), .primitive⟩
  · refine (moves.alikeAt_of_image reachedA reachedB (matching _ _ related)).mono ?_
    rintro x y ⟨reachedX, reachedY, inner⟩
    by_cases equal : x = y
    · exact .inl equal
    · exact .inr ⟨reachedX, reachedY, inner, equal⟩

/-- Types of one shape had one shape before. -/
theorem sameShape_of_image {a b : Ref} (reachedA : a ∈ g.reachable) (reachedB : b ∈ g.reachable)
    (same : h.sameShape false (image a) (image b) = true) : g.sameShape false a b = true := by
  by_cases equal : a = b
  · exact sameShape_iff.2 (.inl equal)
  · rcases sameShape_iff.1 same with place | ⟨rel, matching, related⟩
    · have nothing : h.Matching fun _ _ => False := fun _ _ absurd => absurd.elim
      exact sameShape_iff.2
        (.inr ⟨_, moves.matching_of_image nothing, reachedA, reachedB, .inl place, equal⟩)
    · exact sameShape_iff.2
        (.inr ⟨_, moves.matching_of_image matching, reachedA, reachedB, .inr related, equal⟩)

/-! ## Cases -/

theorem mem_members_image {r n : Ref} (reached : r ∈ g.reachable) :
    n ∈ h.members (image r) ↔ ∃ m ∈ g.members r, image m = n := by
  obtain ⟨type, moved, found, there, relocates⟩ := moves.exists_relocates reached
  constructor
  · intro member
    obtain ⟨news, there', listed⟩ := h.mem_members_iff.1 member
    cases there.symm.trans there'
    cases relocates with
    | union images =>
      obtain ⟨m, inside, rfl⟩ := (images n).1 listed
      exact ⟨m, g.mem_members_iff.2 ⟨_, found, inside⟩, rfl⟩
  · rintro ⟨m, member, rfl⟩
    obtain ⟨olds, found', listed⟩ := g.mem_members_iff.1 member
    cases found.symm.trans found'
    cases relocates with
    | union images => exact h.mem_members_iff.2 ⟨_, there, (images _).2 ⟨m, listed, rfl⟩⟩

theorem unfolds_image {r n : Ref} (reached : r ∈ g.reachable) :
    h.Unfolds (image r) n ↔ ∃ m, g.Unfolds r m ∧ image m = n := by
  constructor
  · intro path
    induction path with
    | refl => exact ⟨r, .refl, rfl⟩
    | tail _ member ih =>
      obtain ⟨b, before, rfl⟩ := ih
      obtain ⟨m, inside, rfl⟩ := (moves.mem_members_image (g.reachable_of_unfolds reached before)).1 member
      exact ⟨m, before.tail inside, rfl⟩
  · rintro ⟨m, path, rfl⟩
    induction path with
    | refl => exact .refl
    | tail before member ih =>
      exact ih.tail ((moves.mem_members_image (g.reachable_of_unfolds reached before)).2 ⟨_, member, rfl⟩)

theorem mem_cases_image {r n : Ref} (reached : r ∈ g.reachable) :
    n ∈ h.cases (image r) ↔ ∃ m ∈ g.cases r, image m = n := by
  rw [h.mem_cases_iff (moves.mem_reachable_image reached), moves.unfolds_image reached]
  constructor
  · rintro ⟨⟨m, path, rfl⟩, plain⟩
    rw [moves.kind?_image (g.reachable_of_unfolds reached path)] at plain
    exact ⟨m, (g.mem_cases_iff reached).2 ⟨path, plain⟩, rfl⟩
  · rintro ⟨m, member, rfl⟩
    obtain ⟨path, plain⟩ := (g.mem_cases_iff reached).1 member
    rw [moves.kind?_image (g.reachable_of_unfolds reached path)]
    exact ⟨⟨m, path, rfl⟩, plain⟩

/-- Cases that differ in kind do not come to share a place. -/
theorem size_cases_image {r : Ref} (reached : r ∈ g.reachable) (differ : g.KindsDiffer (g.cases r)) :
    (h.cases (image r)).size = (g.cases r).size := by
  have inside : ∀ m ∈ g.cases r, m ∈ g.reachable := fun m member =>
    g.reachable_of_unfolds reached ((g.mem_cases_iff reached).1 member).1
  have distinct : ((g.cases r).toList.map image).Nodup := by
    refine List.Nodup.map_on (fun a inA b inB same => differ a inA b inB ?_) (g.cases r).nodup
    rw [← moves.kind?_image (inside a inA), same, moves.kind?_image (inside b inB)]
  have lengths := length_eq_of_nodup (h.cases (image r)).nodup distinct fun n =>
    (moves.mem_cases_image reached).trans List.mem_map.symm
  rw [List.length_map] at lengths
  exact lengths

theorem caseSetsMatch_of_image {r s : Ref} (reachedR : r ∈ g.reachable) (reachedS : s ∈ g.reachable)
    (differR : g.KindsDiffer (g.cases r)) (differS : g.KindsDiffer (g.cases s))
    (matched : h.caseSetsMatch (h.cases (image r)) (h.cases (image s)) = true) :
    g.caseSetsMatch (g.cases r) (g.cases s) = true := by
  obtain ⟨size, each⟩ := exists_of_caseSetsMatch matched
  rw [moves.size_cases_image reachedR differR, moves.size_cases_image reachedS differS] at size
  refine caseSetsMatch_of_forall differS.oneShapePerKind (fun _ => isSome_kind?_of_mem_cases) size
    fun m member => ?_
  obtain ⟨n, listed, kinds, same⟩ := each (image m) ((moves.mem_cases_image reachedR).2 ⟨m, member, rfl⟩)
  obtain ⟨k, inside, rfl⟩ := (moves.mem_cases_image reachedS).1 listed
  have reachedM := g.reachable_of_unfolds reachedR ((g.mem_cases_iff reachedR).1 member).1
  have reachedK := g.reachable_of_unfolds reachedS ((g.mem_cases_iff reachedS).1 inside).1
  rw [moves.kind?_image reachedM, moves.kind?_image reachedK] at kinds
  exact ⟨k, inside, kinds, moves.sameShape_of_image reachedM reachedK same⟩

/-! ## Similar records -/

/-- The record at an image, property by property. -/
theorem exists_record {r : Ref} (reached : r ∈ g.reachable) {moved : Record}
    (there : h.record? (image r) = some moved) : ∃ record, g.record? r = some record ∧
      moved.fixed = record.fixed ∧
      moved.properties.entries.Perm (record.properties.mapValues (Property.relocate image)).entries := by
  obtain ⟨type, other, found, there', relocates⟩ := moves.exists_relocates reached
  cases (h.record?_eq_some_iff.1 there).symm.trans there'
  cases relocates with
  | @record record _ fixed perm => exact ⟨record, g.record?_eq_some_iff.2 found, fixed, perm⟩

variable {onlySame : Bool} {options : SearchOptions}

/-- Records that may be samples of one shape might have been before, if their cases differ in kind. -/
theorem samples_of_image {c d : Ref} (reachedC : c ∈ g.reachable) (reachedD : d ∈ g.reachable)
    (differC : g.CasesDiffer c) (differD : g.CasesDiffer d)
    (samples : h.Samples onlySame (image c) (image d)) : g.Samples onlySame c d := by
  obtain ⟨a', b', thereC, thereD, combines⟩ := samples
  obtain ⟨a, foundC, _, permA⟩ := moves.exists_record reachedC thereC
  obtain ⟨b, foundD, _, permB⟩ := moves.exists_record reachedD thereD
  obtain ⟨sizes, overlap, cases⟩ := canCombine_iff.1 combines
  have names : ∀ name, name ∈ sharedNames a' b' ↔ name ∈ sharedNames a b := by
    intro name
    rw [mem_sharedNames, mem_sharedNames, Ty.mem_keys_relocates permA, Ty.mem_keys_relocates permB]
  have shared : (sharedNames a' b').length = (sharedNames a b).length :=
    length_eq_of_nodup (a'.properties.nodup.filter _) (a.properties.nodup.filter _) names
  rw [Ty.size_relocates permA, Ty.size_relocates permB] at sizes overlap
  rw [shared] at overlap
  refine ⟨a, b, foundC, foundD, canCombine_iff.2 ⟨sizes, overlap, ?_⟩⟩
  intro name listed p q foundP foundQ
  have typeP := g.reachable_of_property reachedC foundC foundP
  have typeQ := g.reachable_of_property reachedD foundD foundQ
  have movedP := (Ty.property?_relocates permA name).trans (congrArg _ foundP)
  have movedQ := (Ty.property?_relocates permB name).trans (congrArg _ foundQ)
  exact moves.caseSetsMatch_of_image typeP typeQ (differC a name p foundC foundP)
    (differD b name q foundD foundQ)
    (cases name ((names name).2 listed) _ _ movedP movedQ)

theorem similar_of_image {c d : Ref} (reachedC : c ∈ g.reachable) (reachedD : d ∈ g.reachable)
    (differC : g.CasesDiffer c) (differD : g.CasesDiffer d)
    (similar : h.Similar onlySame (image c) (image d)) : g.Similar onlySame c d :=
  similar.imp (moves.sameShape_of_image reachedC reachedD)
    (moves.samples_of_image reachedC reachedD differC differD)

theorem exists_eligible {n : Ref} (eligible : h.Eligible options n) :
    ∃ r, g.Eligible options r ∧ image r = n := by
  obtain ⟨reached, moved, there, passes⟩ := eligible
  obtain ⟨r, reachedR, rfl⟩ := moves.mem_reachable_iff.1 reached
  obtain ⟨record, found, fixed, _⟩ := moves.exists_record reachedR there
  exact ⟨r, ⟨reachedR, record, found, fixed ▸ passes⟩, rfl⟩

/-- Where a search finds nothing, it finds nothing after types are moved, if the cases of all records
that it compares differ in kind. -/
theorem similarityCliques_eq_nil (nothing : g.similarityCliques options = .ok [])
    (differ : ∀ r, g.Eligible options r → g.CasesDiffer r) : h.similarityCliques options = .ok [] := by
  refine similarityCliques_eq_nil_iff.2 fun c' d' first second before similar => ?_
  obtain ⟨c, eligibleC, rfl⟩ := moves.exists_eligible first
  obtain ⟨d, eligibleD, rfl⟩ := moves.exists_eligible second
  have apart : c ≠ d := by
    rintro rfl
    exact not_sublist_swap h.nodup_reachable before before
  have differC := differ c eligibleC
  have differD := differ d eligibleD
  refine not_similar_of_nil nothing eligibleC eligibleD apart differC differD ?_
  exact moves.similar_of_image eligibleC.1 eligibleD.1 differC differD similar

end Relocation

end Graph

end SchemaGraph
