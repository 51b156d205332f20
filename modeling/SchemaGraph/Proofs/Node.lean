import SchemaGraph.Builder.Basic
import SchemaGraph.Proofs.Ordered
/-!
# Proofs.Node -- nodes over other constituents, and as a target wants them

What stays of a type when its constituents are replaced and when a target sorts its properties:
its kind, and for every name the property of that name.

* `Ty.mem_children_withChildren`: the constituents are the ones that were given.
* `Ty.alphabetized_record`: sorting moves the properties of a record and changes none.
-/

namespace SchemaGraph

set_option autoImplicit false

namespace Ty

@[simp] theorem kind_withChildren (type : Ty) (refs : List Ref) :
    (type.withChildren refs).kind = type.kind := by
  cases type <;> cases refs <;> rfl

/-- A primitive kind has one type. -/
theorem eq_primitive_of_kind {type : Ty} {p : Primitive} (kind : type.kind = p.kind) :
    type = .primitive p := by
  cases type with
  | primitive q =>
    have both : q.kind.primitive? = p.kind.primitive? := congrArg Kind.primitive? kind
    rw [Kind.primitive?_kind, Kind.primitive?_kind] at both
    rw [Option.some.inj both]
  | _ => cases p <;> cases kind

theorem exists_record_of_kind {type : Ty} (kind : type.kind = .record) :
    ∃ r, type = .record r := by
  cases type with
  | record r => exact ⟨r, rfl⟩
  | primitive p => cases p <;> cases kind
  | _ => cases kind

theorem exists_union_of_kind {type : Ty} (kind : type.kind = .union) :
    ∃ members, type = .union members := by
  cases type with
  | union members => exact ⟨members, rfl⟩
  | primitive p => cases p <;> cases kind
  | _ => cases kind

theorem types_retype {entries : List (String × Property)} {refs : List Ref}
    (same : refs.length = entries.length) :
    (retype entries refs).map (fun entry => entry.2.type) = refs := by
  induction entries generalizing refs with
  | nil =>
    rw [List.length_nil, List.length_eq_zero_iff] at same
    subst same
    rfl
  | cons entry rest ih =>
    cases refs with
    | nil => cases same
    | cons r refs => simp [retype, ih (Nat.succ.inj same)]

/-- The constituents of a type over given ones are the given ones. -/
theorem mem_children_withChildren {type : Ty} {refs : List Ref}
    (same : refs.length = type.children.length) {r : Ref} :
    r ∈ (type.withChildren refs).children ↔ r ∈ refs := by
  cases type with
  | primitive p =>
    have none : refs = [] := List.length_eq_zero_iff.1 same
    subst none
    rfl
  | enum cases =>
    have none : refs = [] := List.length_eq_zero_iff.1 same
    subst none
    rfl
  | array items =>
    obtain ⟨one, rfl⟩ := List.length_eq_one_iff.1 same
    rfl
  | map values =>
    obtain ⟨one, rfl⟩ := List.length_eq_one_iff.1 same
    rfl
  | union members => exact mem_firsts
  | record record =>
    have lengths : refs.length = record.properties.entries.length := by
      simpa [children, OrderedMap.values] using same
    have listed : ((Ty.record record).withChildren refs).children = refs := by
      simp only [withChildren, children, OrderedMap.values, List.map_map]
      exact types_retype lengths
    rw [listed]

theorem forall₂_retype {rel : Ref → Ref → Prop} {entries : List (String × Property)}
    {refs : List Ref} (related : List.Forall₂ rel (entries.map fun entry => entry.2.type) refs) :
    List.Forall₂ (fun old new => new.1 = old.1 ∧ new.2.optional = old.2.optional ∧
      rel old.2.type new.2.type) entries (retype entries refs) := by
  induction entries generalizing refs with
  | nil =>
    cases related
    exact .nil
  | cons entry rest ih =>
    cases related with
    | cons here later => exact .cons ⟨rfl, rfl, here⟩ (ih later)

theorem mem_children_alphabetized {type : Ty} {r : Ref} :
    r ∈ type.alphabetized.children ↔ r ∈ type.children := by
  cases type with
  | record record =>
    simp only [alphabetized, children, OrderedMap.values]
    exact (((perm_sorted _ _).map Prod.snd).map Property.type).mem_iff
  | _ => rfl

end Ty

namespace OrderedMap

/-- Maps with the same entries in another order give every key the same value. -/
theorem get?_eq_of_perm {κ β : Type} [DecidableEq κ] {m n : OrderedMap κ β}
    (perm : m.entries.Perm n.entries) (k : κ) : m.get? k = n.get? k := by
  apply Option.ext
  intro v
  rw [get?_eq_some_iff, get?_eq_some_iff, perm.mem_iff]

end OrderedMap

namespace Ty

/-- Sorting the properties of a record moves them and changes none. -/
theorem alphabetized_record (r : Record) :
    ∃ sortedRecord : Record, (Ty.record r).alphabetized = .record sortedRecord ∧
      sortedRecord.fixed = r.fixed ∧
      sortedRecord.properties.entries.Perm r.properties.entries :=
  ⟨_, rfl, rfl, perm_sorted _ _⟩

/-- Properties that are sorted stay as they are. -/
theorem alphabetized_alphabetized (type : Ty) : type.alphabetized.alphabetized = type.alphabetized := by
  cases type with
  | record r =>
    simp only [alphabetized, record.injEq, Record.mk.injEq, and_true]
    apply OrderedMap.ext
    exact sorted_of_pairwise ((pairwise_sorted_by Prod.fst r.properties.entries).imp decide_eq_true)
  | _ => rfl

theorem alphabetized_mapRefs (f : Ref → Ref) (type : Ty) :
    (type.mapRefs f).alphabetized = type.alphabetized.mapRefs f := by
  cases type with
  | record r =>
    simp only [alphabetized, mapRefs, record.injEq, Record.mk.injEq, and_true]
    apply OrderedMap.ext
    exact (map_sorted (fun entry : String × Property => (entry.1, { entry.2 with type := f entry.2.type }))
      (fun x y => decide (x.1 ≤ y.1)) r.properties.entries).symm
  | _ => rfl

theorem alphabetized_of_kind {type : Ty} (other : type.kind ≠ .record) :
    type.alphabetized = type := by
  cases type with
  | record r => exact absurd rfl other
  | _ => rfl

end Ty

namespace Target

variable (target : Target) (node : Node)

theorem type_normalize :
    (target.normalize node).type = if target.alphabetize then node.type.alphabetized else node.type :=
  rfl

@[simp] theorem kind_normalize : (target.normalize node).kind = node.kind := by
  rw [Node.kind, type_normalize]
  split
  · exact Ty.kind_alphabetized node.type
  · rfl

theorem mem_children_normalize {r : Ref} :
    r ∈ (target.normalize node).children ↔ r ∈ node.children := by
  rw [Node.children, type_normalize]
  split
  · exact Ty.mem_children_alphabetized
  · rfl

theorem type_normalize_of_kind (other : node.kind ≠ .record) :
    (target.normalize node).type = node.type := by
  rw [type_normalize]
  split
  · exact Ty.alphabetized_of_kind other
  · rfl

/-- A target keeps the record of a node, up to the order of its properties. -/
theorem record_normalize {r : Record} (type : node.type = .record r) :
    ∃ final : Record, (target.normalize node).type = .record final ∧ final.fixed = r.fixed ∧
      final.properties.entries.Perm r.properties.entries := by
  rw [type_normalize, type]
  split
  · exact Ty.alphabetized_record r
  · exact ⟨r, rfl, rfl, .refl _⟩

/-- A target keeps the names of a record, or sorts them. -/
theorem keys_normalize {r final : Record} (type : node.type = .record r)
    (found : (target.normalize node).type = .record final) :
    final.properties.keys = arranged target.alphabetize r.properties.keys := by
  rw [type_normalize, type] at found
  unfold arranged
  split at found
  · rename_i sorts
    rw [if_pos sorts, ← Ty.record.inj found]
    exact map_sorted Prod.fst (fun a b => decide (a ≤ b)) r.properties.entries
  · rename_i keeps
    rw [if_neg keeps, Ty.record.inj found]

end Target

namespace Node

theorem ext {a b : Node} (type : a.type = b.type) (attributes : a.attributes = b.attributes) : a = b := by
  cases a
  cases b
  cases type
  cases attributes
  rfl

variable (node : Node)

/-- A plain primitive type is its kind. -/
theorem eq_of_plain? {p : Primitive} (plain : node.plain? = some p) :
    node = ⟨.primitive p, .empty⟩ := by
  obtain ⟨type, attributes⟩ := node
  unfold plain? at plain
  split at plain
  · rename_i q same
    split at plain
    · rename_i noAttributes
      have none : attributes.entries = [] := List.isEmpty_iff.1 noAttributes
      obtain ⟨entries, increasing⟩ := attributes
      subst none
      cases plain
      cases same
      rfl
    · cases plain
  · cases plain

/-- A primitive type has no constituents. -/
theorem children_of_isPrimitive (primitive : node.kind.isPrimitive = true) : node.children = [] := by
  obtain ⟨type, attributes⟩ := node
  cases type with
  | primitive p => rfl
  | enum cases => rfl
  | array items => cases primitive
  | map values => cases primitive
  | union members => cases primitive
  | record r => cases primitive

end Node

/-- A record without attributes, all of whose properties are required. -/
def Node.required (fields : List (String × Ref)) (fixed : Bool) : Node :=
  ⟨.record ⟨.ofList (fields.map fun field => (field.1, ⟨field.2, false⟩)), fixed⟩, .empty⟩

end SchemaGraph
