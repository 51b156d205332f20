import SchemaGraph.Ordered.Set
/-!
# Ordered.Map -- finite maps that remember the order of arrival

An `OrderedMap` lists its entries in the order in which their keys first arrived. Writing a
key again changes its value and leaves it in its place: the last value at the first position.

* `OrderedMap.get?_insert`: a write is seen at its key and nowhere else.
* `OrderedMap.keys_insert`: a write moves no key, and a new key goes to the end.
-/

namespace SchemaGraph

set_option autoImplicit false

variable {κ β : Type}

/-- A finite map whose entries are listed in the order of the first arrival of their keys. -/
structure OrderedMap (κ β : Type) where
  /-- The entries, one for each key. -/
  entries : List (κ × β)
  /-- No key has two entries. -/
  nodup : (entries.map Prod.fst).Nodup
deriving DecidableEq, Repr

namespace OrderedMap

@[ext] theorem ext {m n : OrderedMap κ β} (same : m.entries = n.entries) : m = n := by
  cases m; cases n; cases same; rfl

/-- The map without entries. -/
def empty : OrderedMap κ β := ⟨[], List.nodup_nil⟩

instance : Inhabited (OrderedMap κ β) := ⟨empty⟩

/-- The keys, in order. -/
def keys (m : OrderedMap κ β) : List κ := m.entries.map Prod.fst

/-- The values, in the order of their keys. -/
def values (m : OrderedMap κ β) : List β := m.entries.map Prod.snd

def size (m : OrderedMap κ β) : Nat := m.entries.length

def isEmpty (m : OrderedMap κ β) : Bool := m.entries.isEmpty

/-- The map with every value replaced by its image; the keys stay. -/
def mapValues {γ : Type} (f : β → γ) (m : OrderedMap κ β) : OrderedMap κ γ :=
  ⟨m.entries.map fun entry => (entry.1, f entry.2), by
    have same : (m.entries.map fun entry => (entry.1, f entry.2)).map Prod.fst
        = m.entries.map Prod.fst := by simp [List.map_map, Function.comp_def]
    rw [same]; exact m.nodup⟩

@[simp] theorem keys_mapValues {γ : Type} (f : β → γ) (m : OrderedMap κ β) :
    (m.mapValues f).keys = m.keys := by
  simp [keys, mapValues, List.map_map, Function.comp_def]

variable [DecidableEq κ]

/-- The value of the first entry with the key. -/
def lookup (k : κ) : List (κ × β) → Option β
  | [] => none
  | (k', v) :: rest => if k' = k then some v else lookup k rest

/-- Gives the key its new value in place, or a new entry behind the others. -/
def put (k : κ) (v : β) : List (κ × β) → List (κ × β)
  | [] => [(k, v)]
  | (k', v') :: rest => if k' = k then (k, v) :: rest else (k', v') :: put k v rest

theorem keys_put (k : κ) (v : β) (xs : List (κ × β)) :
    (put k v xs).map Prod.fst
      = if k ∈ xs.map Prod.fst then xs.map Prod.fst else xs.map Prod.fst ++ [k] := by
  induction xs with
  | nil => simp [put]
  | cons entry rest ih =>
    obtain ⟨k', v'⟩ := entry
    by_cases here : k' = k
    · simp [put, here]
    · have other : ¬ k = k' := fun same => here same.symm
      by_cases later : k ∈ rest.map Prod.fst
      · simp [put, here, ih, later]
      · simp only [put, here, ih, later, if_false, List.map_cons, List.mem_cons, other, false_or]
        rfl

theorem nodup_put {k : κ} {v : β} {xs : List (κ × β)} (distinct : (xs.map Prod.fst).Nodup) :
    ((put k v xs).map Prod.fst).Nodup := by
  rw [keys_put]
  by_cases found : k ∈ xs.map Prod.fst
  · rwa [if_pos found]
  · rw [if_neg found, List.nodup_append]
    refine ⟨distinct, by simp, ?_⟩
    intro a member b last same
    rw [List.mem_singleton.1 last] at same
    exact found (same ▸ member)

theorem lookup_put (k j : κ) (v : β) (xs : List (κ × β)) :
    lookup j (put k v xs) = if k = j then some v else lookup j xs := by
  induction xs with
  | nil => simp [put, lookup]
  | cons entry rest ih =>
    obtain ⟨k', v'⟩ := entry
    by_cases here : k' = k
    · subst here
      by_cases hit : k' = j <;> simp [put, lookup, hit]
    · by_cases hit : k' = j
      · have other : ¬ k = j := fun same => here (hit.trans same.symm)
        rw [put, if_neg here, if_neg other, lookup, lookup, if_pos hit, if_pos hit]
      · simp [put, lookup, here, hit, ih]

/-- The value of a key, if it has one. -/
def get? (m : OrderedMap κ β) (k : κ) : Option β := lookup k m.entries

/-- Whether the key has a value. -/
def contains (m : OrderedMap κ β) (k : κ) : Bool := (m.get? k).isSome

/-- Gives the key its value; a key that is there already keeps its place. -/
def insert (m : OrderedMap κ β) (k : κ) (v : β) : OrderedMap κ β :=
  ⟨put k v m.entries, nodup_put m.nodup⟩

/-- The map of a list of entries: of a repeated key, the last value at the first position. -/
def ofList (xs : List (κ × β)) : OrderedMap κ β :=
  xs.foldl (fun m entry => m.insert entry.1 entry.2) empty

@[simp] theorem get?_empty (k : κ) : (empty : OrderedMap κ β).get? k = none := rfl

theorem get?_insert (m : OrderedMap κ β) (k j : κ) (v : β) :
    (m.insert k v).get? j = if k = j then some v else m.get? j := lookup_put k j v m.entries

theorem keys_insert (m : OrderedMap κ β) (k : κ) (v : β) :
    (m.insert k v).keys = if k ∈ m.keys then m.keys else m.keys ++ [k] := keys_put k v m.entries

theorem lookup_eq_none_iff {k : κ} {xs : List (κ × β)} :
    lookup k xs = none ↔ k ∉ xs.map Prod.fst := by
  induction xs with
  | nil => simp [lookup]
  | cons entry rest ih =>
    obtain ⟨k', v⟩ := entry
    by_cases here : k' = k
    · simp [lookup, here]
    · have other : ¬ k = k' := fun same => here same.symm
      simp [lookup, here, other, ih]

theorem get?_eq_none_iff {m : OrderedMap κ β} {k : κ} : m.get? k = none ↔ k ∉ m.keys :=
  lookup_eq_none_iff

theorem contains_iff {m : OrderedMap κ β} {k : κ} : m.contains k = true ↔ k ∈ m.keys := by
  rw [contains, Option.isSome_iff_ne_none, ne_eq, get?_eq_none_iff, Classical.not_not]

end OrderedMap

end SchemaGraph
