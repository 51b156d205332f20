import SchemaGraph.Merge.Unify
import SchemaGraph.Proofs.Merge.Contributors
import SchemaGraph.Proofs.Ordered
/-!
# Proofs.Merge.Constituents -- what the constituents of merged types are

The constituents of a merged type stand for sets of constituents of the contributors. Each lemma
`mem_...Of` says which; a part of a kind with constituents has a contributor of that very kind, so
none of these sets is empty and all can be merged in turn.

* `mem_types_mergeProperty`, `optional_mergeProperty_eq_false_iff`: the types of a merged property,
  and when it is not optional.
-/

namespace SchemaGraph

set_option autoImplicit false

theorem OrderedSet.isEmpty_eq_false_of_mem {α : Type} {s : OrderedSet α} {a : α} (member : a ∈ s) :
    s.isEmpty = false := by
  rw [OrderedSet.isEmpty, List.isEmpty_eq_false_iff]
  exact List.ne_nil_of_mem member

/-- A set that has an element, and not just one, has several. -/
theorem OrderedSet.one_lt_size {α : Type} {s : OrderedSet α} {a : α} (member : a ∈ s)
    (other : ∀ single, s.toList ≠ [single]) : 1 < s.size := by
  have positive : 0 < s.size := List.length_pos_of_mem member
  have notOne : s.size ≠ 1 := by
    intro one
    obtain ⟨single, alone⟩ := List.length_eq_one_iff.1 one
    exact other single alone
  omega

namespace Graph

variable (g : Graph) {refs : OrderedSet Ref}

theorem record?_eq_some_iff {r : Ref} {record : Record} :
    g.record? r = some record ↔ g.type? r = some (.record record) := by
  rw [record?]
  cases g.type? r with
  | none => simp
  | some type =>
    cases type with
    | record other => simp [Ty.record?]
    | _ => simp [Ty.record?]

theorem mem_recordsOf {record : Record} :
    record ∈ g.recordsOf refs ↔ ∃ r ∈ refs, g.type? r = some (.record record) := by
  rw [recordsOf, List.mem_filterMap]
  constructor
  · rintro ⟨r, listed, found⟩
    exact ⟨r, listed, g.record?_eq_some_iff.1 found⟩
  · rintro ⟨r, listed, found⟩
    exact ⟨r, listed, g.record?_eq_some_iff.2 found⟩

theorem mem_casesOf {name : String} :
    name ∈ g.casesOf refs ↔ ∃ r ∈ refs, ∃ cases, g.type? r = some (.enum cases) ∧ name ∈ cases := by
  rw [casesOf, OrderedSet.mem_ofList, List.mem_flatMap]
  constructor
  · rintro ⟨r, listed, member⟩
    split at member
    · rename_i cases found
      exact ⟨r, listed, cases, found, member⟩
    · cases member
  · rintro ⟨r, listed, cases, found, member⟩
    refine ⟨r, listed, ?_⟩
    rw [found]
    exact member

theorem mem_itemsOf {items : Ref} :
    items ∈ g.itemsOf refs ↔ ∃ r ∈ refs, g.type? r = some (.array items) := by
  rw [itemsOf, OrderedSet.mem_ofList, List.mem_filterMap]
  constructor
  · rintro ⟨r, listed, found⟩
    refine ⟨r, listed, ?_⟩
    split at found
    · rename_i same
      rw [same, Option.some.inj found]
    · cases found
  · rintro ⟨r, listed, found⟩
    refine ⟨r, listed, ?_⟩
    rw [found]

theorem mem_valuesOf {value : Ref} :
    value ∈ g.valuesOf refs ↔ ∃ r ∈ refs, g.type? r = some (.map value) ∨
      ∃ record, g.type? r = some (.record record) ∧
        value ∈ record.properties.values.map Property.type := by
  rw [valuesOf, OrderedSet.mem_ofList, List.mem_flatMap]
  constructor
  · rintro ⟨r, listed, member⟩
    refine ⟨r, listed, ?_⟩
    split at member
    · rename_i values found
      rw [List.mem_singleton.1 member]
      exact .inl found
    · rename_i record found
      exact .inr ⟨record, found, member⟩
    · cases member
  · rintro ⟨r, listed, found | ⟨record, found, member⟩⟩
    · refine ⟨r, listed, ?_⟩
      rw [found]
      exact List.mem_cons_self
    · refine ⟨r, listed, ?_⟩
      rw [found]
      exact member

/-! ## Constituents of contributors -/

theorem mem_children_of_mem_itemsOf {items : Ref} (member : items ∈ g.itemsOf refs) :
    ∃ r ∈ refs, items ∈ g.children r := by
  obtain ⟨r, listed, found⟩ := g.mem_itemsOf.1 member
  refine ⟨r, listed, ?_⟩
  rw [g.children_of_type? found]
  exact List.mem_cons_self

theorem mem_children_of_mem_valuesOf {value : Ref} (member : value ∈ g.valuesOf refs) :
    ∃ r ∈ refs, value ∈ g.children r := by
  obtain ⟨r, listed, found | ⟨record, found, member⟩⟩ := g.mem_valuesOf.1 member
  · refine ⟨r, listed, ?_⟩
    rw [g.children_of_type? found]
    exact List.mem_cons_self
  · refine ⟨r, listed, ?_⟩
    rw [g.children_of_type? found]
    exact member

variable {g} {conflate : Bool} {types : List Ref}

theorem Part.itemsOf_nonempty (part : g.Part conflate types .array refs) :
    (g.itemsOf refs).isEmpty = false := by
  obtain ⟨r, listed, kindR⟩ := part.exists_kind
  obtain ⟨type, found, isArray⟩ := g.exists_type?_of_kind? kindR
  cases type with
  | array items => exact OrderedSet.isEmpty_eq_false_of_mem (g.mem_itemsOf.2 ⟨r, listed, found⟩)
  | primitive p => cases p <;> cases isArray
  | _ => cases isArray

theorem Part.valuesOf_nonempty (part : g.Part conflate types .map refs) :
    (g.valuesOf refs).isEmpty = false := by
  obtain ⟨r, listed, kindR⟩ := part.exists_kind
  obtain ⟨type, found, isMap⟩ := g.exists_type?_of_kind? kindR
  cases type with
  | map values =>
    exact OrderedSet.isEmpty_eq_false_of_mem (g.mem_valuesOf.2 ⟨r, listed, .inl found⟩)
  | primitive p => cases p <;> cases isMap
  | _ => cases isMap

end Graph

/-! ## Merged properties -/

section Properties

variable {records : List Record} {name : String}

theorem mem_types_mergeProperty {t : Ref} :
    t ∈ (mergeProperty records name).types ↔
      ∃ record ∈ records, ∃ p, record.property? name = some p ∧ p.type = t := by
  simp only [mergeProperty, OrderedSet.mem_ofList, List.mem_map, List.mem_filterMap]
  constructor
  · rintro ⟨p, ⟨record, listed, found⟩, same⟩
    exact ⟨record, listed, p, found, same⟩
  · rintro ⟨record, listed, p, found, same⟩
    exact ⟨p, ⟨record, listed, found⟩, same⟩

/-- A merged property is not optional when every record has it and none has it as optional. -/
theorem optional_mergeProperty_eq_false_iff :
    (mergeProperty records name).optional = false ↔
      ∀ record ∈ records, ∃ p, record.property? name = some p ∧ p.optional = false := by
  simp only [mergeProperty, Bool.or_eq_false_iff, decide_eq_false_iff_not, Nat.not_lt,
    List.any_eq_false, List.mem_filterMap]
  constructor
  · rintro ⟨required, all⟩ record listed
    have everywhere : ∀ r ∈ records, (r.property? name).isSome := by
      have filtered : (records.filterMap fun r => r.property? name).length =
          records.countP fun r => (r.property? name).isSome := List.length_filterMap_eq_countP
      rw [filtered] at all
      have complete := Nat.le_antisymm List.countP_le_length all
      exact List.countP_eq_length.1 complete
    obtain ⟨p, found⟩ := Option.isSome_iff_exists.1 (everywhere record listed)
    exact ⟨p, found, by simpa using required p ⟨record, listed, found⟩⟩
  · intro required
    constructor
    · rintro p ⟨record, listed, found⟩
      obtain ⟨q, foundQ, notOptional⟩ := required record listed
      rw [found] at foundQ
      cases foundQ
      simpa using notOptional
    · rw [List.length_filterMap_eq_countP]
      refine Nat.le_of_eq (List.countP_eq_length.2 ?_).symm
      intro record listed
      obtain ⟨p, found, _⟩ := required record listed
      rw [found]
      rfl

theorem mem_mergeProperties {merged : MergedProperty} :
    merged ∈ mergeProperties records ↔
      ∃ name, (∃ record ∈ records, name ∈ record.properties.keys) ∧
        mergeProperty records name = merged := by
  simp only [mergeProperties, List.mem_map, mem_firsts, List.mem_flatMap]

theorem names_mergeProperties (records : List Record) :
    (mergeProperties records).map MergedProperty.name =
      firsts (records.flatMap fun record => record.properties.keys) := by
  rw [mergeProperties, List.map_map]
  exact List.map_id _

/-- The merged properties have different names. -/
theorem nodup_names_mergeProperties (records : List Record) :
    ((mergeProperties records).map MergedProperty.name).Nodup := by
  rw [names_mergeProperties]
  exact nodup_firsts _

/-- A merged property has a type. -/
theorem types_nonempty_of_mem_mergeProperties {merged : MergedProperty}
    (listed : merged ∈ mergeProperties records) : merged.types.isEmpty = false := by
  obtain ⟨name, ⟨record, there, key⟩, rfl⟩ := mem_mergeProperties.1 listed
  obtain ⟨p, found⟩ := Option.isSome_iff_exists.1 (OrderedMap.isSome_get?_iff.2 key)
  have member : p.type ∈ (mergeProperty records name).types :=
    mem_types_mergeProperty.2 ⟨record, there, p, found, rfl⟩
  exact OrderedSet.isEmpty_eq_false_of_mem member

/-- The types of a merged property are those of a property in one of the records. -/
theorem exists_property_of_mem_types {merged : MergedProperty}
    (listed : merged ∈ mergeProperties records) {t : Ref} (member : t ∈ merged.types) :
    ∃ record ∈ records, ∃ p, record.property? merged.name = some p ∧ p.type = t := by
  obtain ⟨name, _, rfl⟩ := mem_mergeProperties.1 listed
  exact mem_types_mergeProperty.1 member

end Properties

end SchemaGraph
