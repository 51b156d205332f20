import SchemaGraph.Proofs.Draft.Homomorphism
import SchemaGraph.Proofs.Draft.Numbering
import SchemaGraph.Proofs.Draft.Replacement
import SchemaGraph.Proofs.Graph.Renumbering
import SchemaGraph.Proofs.Merge.Unify
/-!
# Proofs.Draft.NormalForm -- a graph in which nothing is replaced comes out in normal form

Replacing no groups copies what the top-level types lead to. The copies are numbered in the order in which
their originals are reached, and types share a number only as plain primitive types of one kind
(`Graph.NormalCopy`). If the order of properties is kept, a walk through the copy enters the images of what
a walk through the source enters, so the copy is numbered in the order in which its own types are reached.

A graph is in normal form when it is numbered so, is as the target wants it, and has each plain primitive
type once (`Graph.Normal`). Its copy is the graph itself (`Graph.NormalCopy.eq_self`). So replacing nothing
once more changes nothing (`Graph.replacing_nothing_is_normal`).
-/

namespace SchemaGraph

set_option autoImplicit false

/-! ## What a target does twice -/

/-- A bag whose format is kept, if it has one, is left as it is. -/
theorem KeptFormats.strip_eq_self {kept : KeptFormats} {bag : Bag}
    (keeps : ∀ value, bag.get? AttributeKind.format = some value → kept.keeps value = true) :
    kept.strip bag = bag := by
  unfold strip
  cases found : bag.get? AttributeKind.format with
  | none => rfl
  | some value => exact if_pos (keeps value found)

theorem KeptFormats.strip_strip (kept : KeptFormats) (bag : Bag) :
    kept.strip (kept.strip bag) = kept.strip bag :=
  strip_eq_self fun _ => strip_get?_format

namespace Target

variable (target : Target) (node : Node) (image : Ref → Ref)

theorem string_normalize_iff :
    (target.normalize node).type = .primitive .string ↔ node.type = .primitive .string := by
  have kind := target.kind_normalize node
  constructor
  · intro same
    rw [Node.kind, same] at kind
    exact Ty.eq_primitive_of_kind kind.symm
  · intro same
    rw [Node.kind, Node.kind, same] at kind
    exact Ty.eq_primitive_of_kind kind

/-- What is as the target wants it stays as it is. -/
theorem normalize_normalize : target.normalize (target.normalize node) = target.normalize node := by
  have attributes : (target.normalize (target.normalize node)).attributes =
      (target.normalize node).attributes := by
    show (if (target.normalize node).type = .primitive .string then _ else _) = _
    rw [if_congr (target.string_normalize_iff node) rfl rfl]
    by_cases string : node.type = .primitive .string
    · rw [if_pos string, normalize, if_pos string]
      exact target.kept.strip_strip node.attributes
    · rw [if_neg string]
  have type : (target.normalize (target.normalize node)).type = (target.normalize node).type := by
    rw [type_normalize, type_normalize]
    split
    · exact node.type.alphabetized_alphabetized
    · rfl
  exact Node.ext type attributes

/-- It does not matter whether references are replaced before or after. -/
theorem normalize_relocate :
    target.normalize (node.relocate image) = (target.normalize node).relocate image := by
  have string : node.type.mapRefs image = .primitive .string ↔ node.type = .primitive .string := by
    cases node.type <;> simp [Ty.mapRefs]
  have type : (target.normalize (node.relocate image)).type = (target.normalize node).type.mapRefs image := by
    rw [type_normalize, type_normalize]
    split
    · exact Ty.alphabetized_mapRefs image node.type
    · rfl
  exact Node.ext type (if_congr string rfl rfl)

end Target

@[simp] theorem Node.plain?_relocate (node : Node) (image : Ref → Ref) :
    (node.relocate image).plain? = node.plain? := by
  obtain ⟨type, attributes⟩ := node
  cases type <;> rfl

/-! ## Copies and normal forms -/

namespace Graph

variable {target : Target} {g c : Graph} {image : Ref → Ref}

/-- The second graph has the reachable types of the first at their images, as the target wants them, and
binds the same names to them in the same order. -/
structure Copied (target : Target) (g c : Graph) (image : Ref → Ref) : Prop where
  node : ∀ {r node}, r ∈ g.reachable → g.node? r = some node →
    c.node? (image r) = some (target.normalize (node.relocate image))
  tops : c.tops.entries = g.tops.entries.map fun top => (top.1, image top.2)

/-- The images are numbered in the order in which the types are reached, and types share one just if they
are plain primitive types of one kind. -/
structure NormalCopy (target : Target) (g c : Graph) (image : Ref → Ref) : Prop
    extends Copied target g c image where
  numbered : firsts (g.reachable.map image) = List.range c.size
  shared : ∀ a ∈ g.reachable, ∀ b ∈ g.reachable,
    image a = image b ↔ a = b ∨ ∃ p, g.PlainAt target a p ∧ g.PlainAt target b p

/-- The types are numbered in the order in which they are reached, they are as the target wants them, and
no plain primitive type is there twice. -/
structure Normal (target : Target) (c : Graph) : Prop where
  reachable_eq : c.reachable = List.range c.size
  normalized : ∀ {r node}, c.node? r = some node → target.normalize node = node
  once : ∀ {a b p}, c.PlainAt target a p → c.PlainAt target b p → a = b

theorem PlainAt.children_eq {r : Ref} {p : Primitive} (plain : g.PlainAt target r p) : g.children r = [] := by
  obtain ⟨type, found, kind⟩ := g.exists_type?_of_kind? plain.kind_eq
  rw [g.children_of_type? found, Ty.eq_primitive_of_kind kind]
  rfl

namespace NormalCopy

variable (copy : NormalCopy target g c image)

include copy

theorem copiedTo : g.CopiedTo target c image where
  type := by
    intro r type reached found
    obtain ⟨node, at_, rfl⟩ := Option.map_eq_some_iff.1 found
    rw [type?, copy.node reached at_]
    rfl
  tops := copy.tops
  shared := by
    intro a b inA inB same
    refine ((copy.shared a inA b inB).1 same).imp_right ?_
    rintro ⟨p, ⟨node, found, plain⟩, _⟩
    refine ⟨p, ?_⟩
    have primitive : (target.normalize (node.relocate image)).plain? = some p := by
      rw [target.normalize_relocate, Node.plain?_relocate, plain]
    rw [type?, copy.node inA found, Node.eq_of_plain? _ primitive]
    rfl

theorem children_image (kept : target.alphabetize = false) {r : Ref} (reached : r ∈ g.reachable) :
    c.children (image r) = (g.children r).map image := by
  obtain ⟨node, found⟩ := g.exists_node? (g.lt_of_mem_reachable reached)
  have type : (target.normalize (node.relocate image)).type = node.type.mapRefs image := by
    rw [target.type_normalize, kept]
    rfl
  rw [children, copy.node reached found, children, found]
  simp only [Node.children]
  rw [type]
  refine Ty.children_mapRefs_of_nodup fun members isUnion => ?_
  exact copy.copiedTo.nodup_members reached (by rw [type?, found, ← isUnion]; rfl)

/-- The copy is numbered in the order in which its types are reached. -/
theorem reachable_eq (kept : target.alphabetize = false) : c.reachable = List.range c.size := by
  have tops : c.tops.values = g.tops.values.map image := by
    simp [OrderedMap.values, copy.tops]
  have inside : ∀ r ∈ g.reachable, image r ∈ c.refs := by
    intro r reached
    have there : image r ∈ g.reachable.map image := List.mem_map_of_mem reached
    rw [← mem_firsts, copy.numbered] at there
    exact there
  have leaves : ∀ a ∈ g.reachable, ∀ b ∈ g.reachable, image a = image b → a = b ∨ g.children a = [] := by
    intro a inA b inB same
    rcases (copy.shared a inA b inB).1 same with equal | ⟨_, plain, _⟩
    · exact .inl equal
    · exact .inr plain.children_eq
  have walk : explore c.children c.refs (g.tops.values.map image) =
      (firsts (g.reachable.map image)).filter (· ∈ c.refs) :=
    explore_images (fun r reached _ => g.reachable_children reached) (fun r => copy.children_image kept) leaves
      List.nodup_range List.nodup_range (fun r reached _ => g.mem_refs.2 (g.lt_of_mem_reachable reached))
      (fun r reached _ gone => absurd (inside r reached) gone) fun _ => g.reachable_of_top
  rw [reachable, tops, walk, copy.numbered, List.filter_eq_self]
  exact fun r listed => decide_eq_true listed

/-- Every node of the copy is at an image. -/
theorem exists_origin {n : Ref} {there : Node} (found : c.node? n = some there) :
    ∃ r node, r ∈ g.reachable ∧ image r = n ∧ g.node? r = some node ∧
      there = target.normalize (node.relocate image) := by
  have listed : n ∈ List.range c.size :=
    List.mem_range.2 (c.lt_of_node? found)
  rw [← copy.numbered, mem_firsts] at listed
  obtain ⟨r, reached, rfl⟩ := List.mem_map.1 listed
  obtain ⟨node, here⟩ := g.exists_node? (g.lt_of_mem_reachable reached)
  exact ⟨r, node, reached, rfl, here, Option.some.inj (found.symm.trans (copy.node reached here))⟩

/-- What is plain in the copy is at the image of a plain type. -/
theorem exists_plainAt {n : Ref} {p : Primitive} (plain : c.PlainAt target n p) :
    ∃ r ∈ g.reachable, image r = n ∧ g.PlainAt target r p := by
  obtain ⟨there, found, plain⟩ := plain
  obtain ⟨r, node, reached, same, here, rfl⟩ := copy.exists_origin found
  rw [target.normalize_normalize, target.normalize_relocate, Node.plain?_relocate] at plain
  exact ⟨r, reached, same, node, here, plain⟩

theorem normal (kept : target.alphabetize = false) : c.Normal target where
  reachable_eq := copy.reachable_eq kept
  normalized := by
    intro n there found
    obtain ⟨_, node, _, _, _, rfl⟩ := copy.exists_origin found
    exact target.normalize_normalize _
  once := by
    intro m n p plainM plainN
    obtain ⟨a, inA, rfl, plainA⟩ := copy.exists_plainAt plainM
    obtain ⟨b, inB, rfl, plainB⟩ := copy.exists_plainAt plainN
    exact (copy.shared a inA b inB).2 (.inr ⟨p, plainA, plainB⟩)

/-- No types of a normal form share an image, so the images come in the order of the types. -/
theorem images_eq_range (normal : g.Normal target) :
    (List.range g.size).map image = List.range c.size := by
  have injective : ∀ a ∈ g.reachable, ∀ b ∈ g.reachable, image a = image b → a = b := by
    intro a inA b inB same
    rcases (copy.shared a inA b inB).1 same with equal | ⟨p, plainA, plainB⟩
    · exact equal
    · exact normal.once plainA plainB
  have distinct : (g.reachable.map image).Nodup := List.Nodup.map_on injective g.nodup_reachable
  rw [← copy.numbered, firsts_of_nodup distinct, normal.reachable_eq]

theorem size_eq (normal : g.Normal target) : c.size = g.size := by
  have lengths := congrArg List.length (copy.images_eq_range normal)
  simpa using lengths.symm

/-- In a normal form every type is its own image. -/
theorem image_eq (normal : g.Normal target) {r : Ref} (inside : r < g.size) : image r = r := by
  have here := congrArg (·[r]?) (copy.images_eq_range normal)
  simpa [inside, copy.size_eq normal] using here

theorem node?_eq (normal : g.Normal target) {r : Ref} (inside : r < g.size) : c.node? r = g.node? r := by
  obtain ⟨node, found⟩ := g.exists_node? inside
  have reached : r ∈ g.reachable := by
    rw [normal.reachable_eq]
    exact List.mem_range.2 inside
  have children : ∀ child ∈ node.children, image child = child := fun child member =>
    copy.image_eq normal (g.children_lt (by rw [Graph.children, found]; exact member))
  have relocated : node.relocate image = node := Node.ext (Ty.mapRefs_eq_self children) rfl
  have there := copy.node reached found
  rw [copy.image_eq normal inside, relocated, normal.normalized found] at there
  rw [there, found]

/-- The copy of a normal form is the graph itself. -/
theorem eq_self (normal : g.Normal target) : c = g := by
  refine Graph.ext (Array.ext_getElem? fun r => ?_) (OrderedMap.ext ?_)
  · by_cases inside : r < g.size
    · exact copy.node?_eq normal inside
    · have outside := Nat.not_lt.1 inside
      have outside' : c.size ≤ r := (copy.size_eq normal).symm ▸ outside
      exact (c.node?_eq_none_iff.2 outside').trans (g.node?_eq_none_iff.2 outside).symm
  · rw [copy.tops]
    refine (List.map_congr_left fun top listed => ?_).trans (List.map_id _)
    have inside := g.tops_lt (List.mem_map_of_mem listed)
    rw [copy.image_eq normal inside]
    rfl

end NormalCopy

end Graph

/-! ## Replacing nothing -/

theorem Builder.size_of_finish? {b : Builder} {h : Graph} (finished : b.finish? = .ok h) :
    h.size = b.size := by
  obtain ⟨nodes, filled, _⟩ := eq_of_finish? finished
  refine eq_of_forall_lt_iff fun r => ⟨fun inside => ?_, fun inside => ?_⟩
  · obtain ⟨node, found⟩ := h.exists_node? inside
    rw [nodes] at found
    exact lt_of_node? found
  · obtain ⟨node, found⟩ := filled r inside
    rw [← nodes] at found
    exact h.lt_of_node? found

namespace Plan

/-- The plan without groups. -/
def keeping (source : Graph) : Plan := ⟨source, [], nofun, nofun, List.nodup_nil⟩

theorem ofGroups?_nil (source : Graph) : ofGroups? source [] = .ok (keeping source) :=
  ofGroups?_eq_ok (keeping source).nonempty (keeping source).members_lt (keeping source).disjoint

theorem visible_of_reachable {source : Graph} {r : Ref} (reached : r ∈ source.reachable) :
    (keeping source).Visible r := by
  obtain ⟨t, top, path⟩ := source.mem_reachable_iff.1 reached
  clear reached
  induction path with
  | refl => exact .top top
  | tail _ child ih => exact .child ih rfl child

end Plan

namespace Graph

open Plan

variable {target : Target} {g c : Graph}

/-- A draft that remembers the copies of the reachable types, in the order in which they are reached, makes
a copy that is numbered in this order. -/
theorem normalCopy_of_numbered {final : Draft} {forwarding : Nat → Ref}
    (numbered : final.Numbered (keeping g) target) (keys : final.copied.keys = g.reachable)
    (finished : final.builder.finish? = .ok c)
    (holds : (keeping g).Homomorphism target c forwarding (final.image (keeping g))) :
    g.NormalCopy target c (final.image (keeping g)) := by
  have known : ∀ r ∈ g.reachable, final.copied.get? r = some (final.image (keeping g) r) := by
    intro r reached
    rw [← keys] at reached
    obtain ⟨new, found⟩ := OrderedMap.mem_keys_iff.1 reached
    have image : final.image (keeping g) r = (final.copied.get? r).getD 0 := rfl
    rw [image, found]
    rfl
  have values : final.copied.values = g.reachable.map (final.image (keeping g)) := by
    rw [← keys, OrderedMap.values, OrderedMap.keys, List.map_map]
    refine List.map_congr_left fun entry listed => ?_
    have found := OrderedMap.get?_eq_some_iff.2 listed
    have reached : entry.1 ∈ g.reachable := keys ▸ List.mem_map_of_mem listed
    exact Option.some.inj (found.symm.trans (known _ reached))
  refine ⟨⟨fun reached found => holds.node (visible_of_reachable reached) rfl found, holds.tops⟩, ?_, ?_⟩
  · rw [← values, numbered.order, Builder.size_of_finish? finished]
  · intro a inA b inB
    constructor
    · intro same
      exact numbered.apart (known a inA) (same ▸ known b inB)
    · rintro (rfl | ⟨p, plainA, plainB⟩)
      · rfl
      · have internedA := numbered.interned.2 ⟨a, known a inA, plainA⟩
        have internedB := numbered.interned.2 ⟨b, known b inB, plainB⟩
        exact Option.some.inj (internedA.symm.trans internedB)

/-- Without groups it does not matter how groups are replaced. -/
theorem replaceGroups_nil (label : String) (replacement other : Replacement) :
    g.replaceGroups label target [] replacement = g.replaceGroups label target [] other := rfl

/-- Replacing no groups succeeds, and makes a copy that is numbered in the order in which the types of the
source are reached. -/
theorem exists_normalCopy (g : Graph) (label : String) (target : Target) (replacement : Replacement) :
    ∃ c image, (g.replaceGroups label target [] replacement).result = .ok c ∧
      g.NormalCopy target c image := by
  let unifier : Unifier := ⟨.standard, true⟩
  have fills : unifier.replacement.Fills unifier.conflate := fun sound listed awaits =>
    unifier.advances_replacement sound listed awaits
  have records : (keeping g).OfRecords := nofun
  obtain ⟨c, _, done, _⟩ :=
    @replaceGroups_succeeds g label target _ _ fills (keeping g) (ofGroups?_nil g) records
  obtain ⟨plan, final, planned, run⟩ := exists_run_of_replaceGroups done
  cases planned.symm.trans (ofGroups?_nil g)
  obtain ⟨numbered, keys, finished⟩ := (Drafting.ensures_walked_replaceAll rfl target).of_run run
  obtain ⟨_, holds⟩ := (Drafting.ensures_replaceAll unifier.scripted_replacement target).of_run run
  refine ⟨c, final.image (keeping g), ?_, normalCopy_of_numbered numbered keys finished holds⟩
  rw [replaceGroups_nil label replacement unifier.replacement]
  exact done

/-- Replacing no groups, where the order of properties is kept, makes a normal form. It has every reachable
type at its image, numbered in the order in which its own types are reached; types share an image only as
plain primitive types of one kind; and replacing nothing once more makes the same graph. -/
theorem replacing_nothing_is_normal (g : Graph) (label : String) (kept : KeptFormats)
    (replacement : Replacement) :
    ∃ c image, (g.replaceGroups label ⟨kept, false⟩ [] replacement).result = .ok c ∧
      g.Copied ⟨kept, false⟩ c image ∧ c.reachable = List.range c.size ∧
      (∀ a ∈ g.reachable, ∀ b ∈ g.reachable, image a = image b ↔
        a = b ∨ ∃ p, g.PlainAt ⟨kept, false⟩ a p ∧ g.PlainAt ⟨kept, false⟩ b p) ∧
      ∀ again other, (c.replaceGroups again ⟨kept, false⟩ [] other).result = .ok c := by
  obtain ⟨c, image, done, copy⟩ := g.exists_normalCopy label ⟨kept, false⟩ replacement
  refine ⟨c, image, done, copy.toCopied, copy.reachable_eq rfl, copy.shared, fun again other => ?_⟩
  obtain ⟨c', _, done', copy'⟩ := c.exists_normalCopy again ⟨kept, false⟩ other
  rw [done', copy'.eq_self (copy.normal rfl)]

end Graph

end SchemaGraph
