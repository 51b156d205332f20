import SchemaGraph.Graph.Matching
import SchemaGraph.Json.Value
import SchemaGraph.Proofs.Node
/-!
# Proofs.Documents.Basic -- the documents that belong to a type

A type of a graph describes JSON documents. `Ty.Admits` is one layer of this: what a type asks of a
document, given what belongs to its constituents. `Graph.Accepts` is the least relation that is
closed under it, so a document belongs to a type by a finite derivation, also where types are
cyclic. Attributes do not count.

* `Graph.Accepts.induct`: induction on derivations, a layer at a time.
* `Ty.Admits.withChildren`, `Ty.Admits.normalize`: a layer over other constituents, and as a target
  wants it.
-/

namespace SchemaGraph

set_option autoImplicit false

/-- What a type asks of a document, given which documents belong to its constituents. Integers are
numbers too, and a record asks for its properties that are not optional and allows no others. -/
inductive Ty.Admits (belongs : Value → Ref → Prop) : Ty → Value → Prop
  | any {doc : Value} : Admits belongs (.primitive .any) doc
  | null : Admits belongs (.primitive .null) .null
  | bool {b : Bool} : Admits belongs (.primitive .bool) (.bool b)
  | integer {n : Int} : Admits belongs (.primitive .integer) (.int n)
  | whole {n : Int} : Admits belongs (.primitive .double) (.int n)
  | double {d : Double} : Admits belongs (.primitive .double) (.double d)
  | string {s : String} : Admits belongs (.primitive .string) (.string s)
  | enum {cases : OrderedSet String} {s : String} : s ∈ cases → Admits belongs (.enum cases) (.string s)
  | array {items : Ref} {docs : List Value} : (∀ doc ∈ docs, belongs doc items) →
      Admits belongs (.array items) (.array docs)
  | map {values : Ref} {fields : List (String × Value)} :
      (∀ field ∈ fields, belongs field.2 values) → Admits belongs (.map values) (.object fields)
  | record {r : Record} {fields : List (String × Value)} :
      (∀ field ∈ fields, field.1 ∈ r.properties.keys) →
      (∀ field ∈ fields, ∀ p, r.property? field.1 = some p → belongs field.2 p.type) →
      (∀ name p, r.property? name = some p → p.optional = false → name ∈ fields.map Prod.fst) →
      Admits belongs (.record r) (.object fields)
  | union {members : OrderedSet Ref} {doc : Value} {m : Ref} : m ∈ members → belongs doc m →
      Admits belongs (.union members) doc

/-- The document belongs to the type. -/
inductive Graph.Accepts (g : Graph) : Value → Ref → Prop
  | of {doc : Value} {r : Ref} {type : Ty} :
      g.type? r = some type → type.Admits (Graph.Accepts g) doc → Accepts g doc r

/-- What holds of a type and a document whenever it holds of the constituents and the parts of the
document that belong to them, holds of every document that belongs to a type. -/
theorem Graph.Accepts.induct {g : Graph} {motive : Value → Ref → Prop}
    (step : ∀ {doc r type}, g.type? r = some type →
      type.Admits (fun d s => g.Accepts d s ∧ motive d s) doc → motive doc r)
    {doc : Value} {r : Ref} (accepts : g.Accepts doc r) : motive doc r := by
  refine @Graph.Accepts.rec g (fun doc r _ => motive doc r)
    (fun type doc _ => type.Admits (fun d s => g.Accepts d s ∧ motive d s) doc)
    ?_ ?_ ?_ ?_ ?_ ?_ ?_ ?_ ?_ ?_ ?_ ?_ ?_ doc r accepts
  · intro doc r type found _ layer
    exact step found layer
  · exact .any
  · exact .null
  · exact .bool
  · exact .integer
  · exact .whole
  · exact .double
  · exact .string
  · exact fun listed => .enum listed
  · exact fun here later => .array fun doc listed => ⟨here doc listed, later doc listed⟩
  · exact fun here later => .map fun field listed => ⟨here field listed, later field listed⟩
  · intro r fields keys here required later
    exact .record keys (fun field listed p found =>
      ⟨here field listed p found, later field listed p found⟩) required
  · exact fun member here later => .union member ⟨here, later⟩

namespace Ty.Admits

variable {P Q : Value → Ref → Prop} {doc : Value}

/-- A primitive type has no constituents. -/
theorem primitive {p : Primitive} (admits : (Ty.primitive p).Admits P doc) :
    (Ty.primitive p).Admits Q doc := by
  cases admits with
  | any => exact .any
  | null => exact .null
  | bool => exact .bool
  | integer => exact .integer
  | whole => exact .whole
  | double => exact .double
  | string => exact .string

/-- With more documents for its constituents a type admits at least as much. -/
theorem imp {type : Ty} (wider : ∀ {d s}, P d s → Q d s) (admits : type.Admits P doc) :
    type.Admits Q doc := by
  cases admits with
  | any => exact .any
  | null => exact .null
  | bool => exact .bool
  | integer => exact .integer
  | whole => exact .whole
  | double => exact .double
  | string => exact .string
  | enum listed => exact .enum listed
  | array belongs => exact .array fun d listed => wider (belongs d listed)
  | map belongs => exact .map fun field listed => wider (belongs field listed)
  | record allowed belongs asked =>
    exact .record allowed (fun field listed p found => wider (belongs field listed p found)) asked
  | union member belongs => exact .union member (wider belongs)

/-- A record admits what another one does if it has at least its properties, with at least their
documents, and asks for no others. -/
theorem record_of {old new : Record}
    (keys : ∀ name ∈ old.properties.keys, name ∈ new.properties.keys)
    (types : ∀ name p q, old.property? name = some p → new.property? name = some q →
      ∀ d, P d p.type → Q d q.type)
    (required : ∀ name q, new.property? name = some q → q.optional = false →
      ∃ p, old.property? name = some p ∧ p.optional = false)
    (admits : (Ty.record old).Admits P doc) : (Ty.record new).Admits Q doc := by
  cases admits with
  | record allowed belongs asked =>
    refine .record ?_ ?_ ?_
    · exact fun field listed => keys field.1 (allowed field listed)
    · intro field listed q found
      obtain ⟨p, there⟩ := Option.isSome_iff_exists.1
        (OrderedMap.isSome_get?_iff.2 (allowed field listed))
      exact types field.1 p q there found field.2 (belongs field listed p there)
    · intro name q found notOptional
      obtain ⟨p, there, asks⟩ := required name q found notOptional
      exact asked name p there asks

/-- The order of properties does not matter. -/
theorem record_of_perm {old new : Record} (perm : new.properties.entries.Perm old.properties.entries)
    (admits : (Ty.record old).Admits P doc) : (Ty.record new).Admits P doc := by
  have same : ∀ name, new.property? name = old.property? name :=
    fun name => OrderedMap.get?_eq_of_perm perm name
  refine record_of ?_ ?_ ?_ admits
  · intro name listed
    exact ((perm.map Prod.fst).mem_iff).2 listed
  · intro name p q there found d belongs
    rw [same, there] at found
    cases found
    exact belongs
  · intro name q found notOptional
    exact ⟨q, (same name).symm.trans found, notOptional⟩

/-- What a type admits, it admits as a target wants it. -/
theorem normalize {target : Target} {node : Node} (admits : node.type.Admits P doc) :
    (target.normalize node).type.Admits P doc := by
  by_cases isRecord : node.kind = .record
  · obtain ⟨type, attributes⟩ := node
    cases type with
    | record r =>
      obtain ⟨final, same, _, perm⟩ := target.record_normalize ⟨.record r, attributes⟩ rfl
      rw [same]
      exact record_of_perm perm admits
    | primitive p => cases p <;> cases isRecord
    | _ => cases isRecord
  · rw [target.type_normalize_of_kind node isRecord]
    exact admits

/-- Over constituents to which at least as much belongs, a type admits at least as much. -/
theorem withChildren {type : Ty} {news : List Ref} {rel : Ref → Ref → Prop}
    (related : List.Forall₂ rel type.children news)
    (carry : ∀ {d s n}, P d s → rel s n → Q d n) (admits : type.Admits P doc) :
    (type.withChildren news).Admits Q doc := by
  cases type with
  | primitive p => exact admits.primitive
  | enum cases =>
    cases admits with
    | enum listed => exact .enum listed
  | array items =>
    cases related with
    | cons here rest =>
      cases rest
      cases admits with
      | array belongs => exact .array fun doc listed => carry (belongs doc listed) here
  | map values =>
    cases related with
    | cons here rest =>
      cases rest
      cases admits with
      | map belongs => exact .map fun field listed => carry (belongs field listed) here
  | union members =>
    cases admits with
    | union member belongs =>
      obtain ⟨n, listed, here⟩ := exists_of_mem_left related member
      exact .union (OrderedSet.mem_ofList.2 listed) (carry belongs here)
  | record r =>
    have entries := Ty.forall₂_retype (by simpa [children, OrderedMap.values] using related)
    refine record_of ?_ ?_ ?_ admits
    · intro name listed
      show name ∈ (retype r.properties.entries news).map Prod.fst
      rw [keys_retype]
      exact listed
    · intro name p q there found d here
      obtain ⟨old, listed, nameEq, _, stands⟩ :=
        exists_of_mem_right entries (OrderedMap.get?_eq_some_iff.1 found)
      have same : r.property? name = some old.2 := by
        refine OrderedMap.get?_eq_some_iff.2 ?_
        have pair : (name, old.2) = old := Prod.ext nameEq rfl
        rw [pair]
        exact listed
      rw [there] at same
      cases same
      exact carry here stands
    · intro name q found notOptional
      obtain ⟨old, listed, nameEq, optional, _⟩ :=
        exists_of_mem_right entries (OrderedMap.get?_eq_some_iff.1 found)
      refine ⟨old.2, OrderedMap.get?_eq_some_iff.2 ?_, optional.symm.trans notOptional⟩
      have pair : (name, old.2) = old := Prod.ext nameEq rfl
      rw [pair]
      exact listed

end Ty.Admits

end SchemaGraph
