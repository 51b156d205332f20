/-!
# Ordered.Set -- finite sets that remember the order of arrival

An `OrderedSet` lists its elements once each, in the order in which they first arrived. Two
sets with the same elements in different orders are different values: the order is part of
what a graph shows. `firsts` is the rule behind every such set: of a repeated element the
first occurrence stays.

* `mem_firsts`, `nodup_firsts`: dropping repetitions loses no element and leaves none twice.
* `OrderedSet.mem_insert`, `OrderedSet.mem_ofList`: the two ways to build a set, seen by
  membership.
-/

namespace SchemaGraph

set_option autoImplicit false

variable {α : Type}

/-! ## First occurrences -/

/-- The list without repetitions, each element at the place of its first occurrence. -/
def firsts [DecidableEq α] : List α → List α
  | [] => []
  | a :: rest => a :: (firsts rest).filter (· ≠ a)

@[simp] theorem firsts_nil [DecidableEq α] : firsts ([] : List α) = [] := rfl

theorem firsts_cons [DecidableEq α] (a : α) (rest : List α) :
    firsts (a :: rest) = a :: (firsts rest).filter (· ≠ a) := rfl

@[simp] theorem mem_firsts [DecidableEq α] {a : α} {xs : List α} : a ∈ firsts xs ↔ a ∈ xs := by
  induction xs with
  | nil => simp
  | cons b rest ih =>
    by_cases same : a = b
    · simp [firsts_cons, same]
    · simp [firsts_cons, same, ih]

theorem nodup_firsts [DecidableEq α] (xs : List α) : (firsts xs).Nodup := by
  induction xs with
  | nil => simp
  | cons b rest ih =>
    rw [firsts_cons, List.nodup_cons]
    exact ⟨by simp, ih.filter _⟩

/-- A list without repetitions is kept as it is. -/
theorem firsts_of_nodup [DecidableEq α] {xs : List α} (distinct : xs.Nodup) : firsts xs = xs := by
  induction xs with
  | nil => rfl
  | cons b rest ih =>
    rw [List.nodup_cons] at distinct
    rw [firsts_cons, ih distinct.2, List.filter_eq_self.2]
    intro a member
    have different : a ≠ b := fun same => distinct.1 (same ▸ member)
    simp [different]

/-! ## Ordered sets -/

/-- A finite set whose elements are listed in the order of their first arrival. -/
structure OrderedSet (α : Type) where
  /-- The elements, each once. -/
  toList : List α
  /-- No element is listed twice. -/
  nodup : toList.Nodup
deriving DecidableEq, Repr

namespace OrderedSet

@[ext] theorem ext {s t : OrderedSet α} (same : s.toList = t.toList) : s = t := by
  cases s; cases t; cases same; rfl

instance : Membership α (OrderedSet α) := ⟨fun s a => a ∈ s.toList⟩

theorem mem_def {a : α} {s : OrderedSet α} : a ∈ s ↔ a ∈ s.toList := Iff.rfl

/-- Membership in a set that is found to list one element. -/
theorem mem_iff_of_toList_eq {a b : α} {s : OrderedSet α} (alone : s.toList = [a]) :
    b ∈ s ↔ b = a := by
  rw [mem_def, alone, List.mem_singleton]

instance [DecidableEq α] (a : α) (s : OrderedSet α) : Decidable (a ∈ s) :=
  inferInstanceAs (Decidable (a ∈ s.toList))

/-- The set without elements. -/
def empty : OrderedSet α := ⟨[], List.nodup_nil⟩

instance : Inhabited (OrderedSet α) := ⟨empty⟩

/-- The number of elements. -/
def size (s : OrderedSet α) : Nat := s.toList.length

def isEmpty (s : OrderedSet α) : Bool := s.toList.isEmpty

variable [DecidableEq α]

/-- The elements of a list, in the order of their first occurrences. -/
def ofList (xs : List α) : OrderedSet α := ⟨firsts xs, nodup_firsts xs⟩

/-- Adds an element behind the others, unless it is there already. -/
def insert (s : OrderedSet α) (a : α) : OrderedSet α :=
  if found : a ∈ s.toList then s
  else ⟨s.toList ++ [a], by
    rw [List.nodup_append]
    refine ⟨s.nodup, by simp, ?_⟩
    intro b member c last same
    rw [List.mem_singleton.1 last] at same
    exact found (same ▸ member)⟩

/-- The images of the elements; elements with one image become one element. -/
def map {β : Type} [DecidableEq β] (f : α → β) (s : OrderedSet α) : OrderedSet β :=
  ofList (s.toList.map f)

theorem toList_insert (s : OrderedSet α) (a : α) :
    (s.insert a).toList = if a ∈ s then s.toList else s.toList ++ [a] := by
  by_cases found : a ∈ s.toList
  · simp [insert, found, mem_def]
  · simp [insert, found, mem_def]

@[simp] theorem mem_insert {s : OrderedSet α} {a b : α} : b ∈ s.insert a ↔ b ∈ s ∨ b = a := by
  rw [mem_def, toList_insert]
  by_cases found : a ∈ s
  · rw [if_pos found, ← mem_def]
    constructor
    · exact .inl
    · rintro (member | rfl)
      · exact member
      · exact found
  · rw [if_neg found, List.mem_append, List.mem_singleton, ← mem_def]

@[simp] theorem mem_ofList {xs : List α} {a : α} : a ∈ ofList xs ↔ a ∈ xs := mem_firsts

@[simp] theorem toList_ofList (xs : List α) : (ofList xs).toList = firsts xs := rfl

@[simp] theorem ofList_toList (s : OrderedSet α) : ofList s.toList = s :=
  ext (firsts_of_nodup s.nodup)

end OrderedSet

end SchemaGraph
