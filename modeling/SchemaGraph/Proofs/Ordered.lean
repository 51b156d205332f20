import Mathlib.Data.List.Sublists
import Mathlib.Data.List.Sort
import SchemaGraph.Draft.Basic
/-!
# Proofs.Ordered -- sets and maps that remember an order, seen by their elements

What the proofs need to know of ordered sets and maps beyond their own laws: when two sets are
remembered under one key, and that a list of entries without repeated keys is a map as it stands.

* `unionKey_eq_iff`: two sets have one key exactly when they have the same elements.
* `unionKey_mem_sublists`: there are finitely many keys over the types of a graph.
* `OrderedMap.get?_eq_some_iff`: a key has a value when the entry is listed.
-/

namespace SchemaGraph

set_option autoImplicit false

/-! ## Related lists -/

theorem exists_of_mem_right {α β : Type} {rel : α → β → Prop} {xs : List α} {ys : List β}
    (related : List.Forall₂ rel xs ys) {y : β} (member : y ∈ ys) : ∃ x ∈ xs, rel x y := by
  induction related with
  | nil => cases member
  | cons here _ ih =>
    rcases List.mem_cons.1 member with rfl | later
    · exact ⟨_, List.mem_cons_self, here⟩
    · obtain ⟨x, listed, holds⟩ := ih later
      exact ⟨x, List.mem_cons_of_mem _ listed, holds⟩

theorem exists_of_mem_left {α β : Type} {rel : α → β → Prop} {xs : List α} {ys : List β}
    (related : List.Forall₂ rel xs ys) {x : α} (member : x ∈ xs) : ∃ y ∈ ys, rel x y :=
  exists_of_mem_right related.flip member

theorem exists_forall₂ {α β : Type} {rel : α → β → Prop} {xs : List α}
    (each : ∀ x ∈ xs, ∃ y, rel x y) : ∃ ys, List.Forall₂ rel xs ys := by
  induction xs with
  | nil => exact ⟨[], .nil⟩
  | cons x rest ih =>
    obtain ⟨y, here⟩ := each x List.mem_cons_self
    obtain ⟨ys, later⟩ := ih fun z listed => each z (List.mem_cons_of_mem _ listed)
    exact ⟨y :: ys, .cons here later⟩

theorem exists_map_some {α : Type} {xs : List (Option α)} (filled : ∀ x ∈ xs, x ≠ none) :
    ∃ ys : List α, xs = ys.map some := by
  induction xs with
  | nil => exact ⟨[], rfl⟩
  | cons x rest ih =>
    obtain ⟨ys, rfl⟩ := ih fun y later => filled y (List.mem_cons_of_mem _ later)
    cases x with
    | none => exact absurd rfl (filled none List.mem_cons_self)
    | some a => exact ⟨a :: ys, rfl⟩

/-- Related lists have the same images under functions that agree on related elements. -/
theorem map_eq_map_of_forall₂ {α β γ : Type} {rel : α → β → Prop} {xs : List α} {ys : List β}
    (related : List.Forall₂ rel xs ys) {f : α → γ} {g : β → γ}
    (agree : ∀ x ∈ xs, ∀ y ∈ ys, rel x y → f x = g y) : xs.map f = ys.map g := by
  induction related with
  | nil => rfl
  | cons here _ ih =>
    rw [List.map_cons, List.map_cons, agree _ List.mem_cons_self _ List.mem_cons_self here, ih]
    intro x listed y member
    exact agree x (List.mem_cons_of_mem _ listed) y (List.mem_cons_of_mem _ member)

/-! ## First occurrences -/

section Firsts

variable {α β : Type} [DecidableEq β]

/-- Dropping repetitions keeps the order. -/
theorem firsts_sublist (xs : List β) : (firsts xs).Sublist xs := by
  induction xs with
  | nil => exact .slnil
  | cons a rest ih => exact .cons_cons a (List.filter_sublist.trans ih)

theorem firsts_append (xs ys : List β) :
    firsts (xs ++ ys) = firsts xs ++ (firsts ys).filter (· ∉ xs) := by
  induction xs with
  | nil => simp
  | cons a rest ih =>
    rw [List.cons_append, firsts_cons, ih, firsts_cons, List.filter_append, List.cons_append,
      List.filter_filter]
    congr 2
    refine List.filter_congr fun b _ => ?_
    simp

theorem filter_firsts (p : β → Bool) (xs : List β) : (firsts xs).filter p = firsts (xs.filter p) := by
  induction xs with
  | nil => rfl
  | cons a rest ih =>
    rw [firsts_cons]
    by_cases kept : p a = true
    · rw [List.filter_cons_of_pos kept, List.filter_cons_of_pos kept, firsts_cons, ← ih,
        List.filter_filter, List.filter_filter]
      simp only [Bool.and_comm]
    · rw [List.filter_cons_of_neg kept, List.filter_cons_of_neg kept, ← ih, List.filter_filter]
      refine List.filter_congr fun b _ => ?_
      by_cases same : b = a
      · simp [same, kept]
      · simp [same]

/-- Dropping repetitions early changes nothing. -/
theorem firsts_flatMap_firsts (f : α → List β) (xs : List α) :
    firsts (xs.flatMap fun x => firsts (f x)) = firsts (xs.flatMap f) := by
  induction xs with
  | nil => rfl
  | cons x rest ih =>
    rw [List.flatMap_cons, List.flatMap_cons, firsts_append, firsts_append, ih,
      firsts_of_nodup (nodup_firsts _)]
    simp only [mem_firsts]

end Firsts

/-! ## Lists of names -/

section Images

variable {α β : Type} (f : α → β) (le : β → β → Bool)

theorem map_place (a : α) (xs : List α) :
    (place (fun x y => le (f x) (f y)) a xs).map f = place le (f a) (xs.map f) := by
  induction xs with
  | nil => rfl
  | cons b rest ih =>
    rw [place, List.map_cons, place]
    split
    · rfl
    · rw [List.map_cons, ih]

/-- Elements that are sorted by their images have sorted images. -/
theorem map_sorted (xs : List α) :
    (sorted (fun x y => le (f x) (f y)) xs).map f = sorted le (xs.map f) := by
  induction xs with
  | nil => rfl
  | cons a rest ih => rw [sorted, map_place, ih, List.map_cons, sorted]

end Images

/-- Names in the order that a target wants: in their own, or sorted. -/
def arranged (alphabetize : Bool) (names : List String) : List String :=
  if alphabetize then sorted (fun a b => decide (a ≤ b)) names else names

@[simp] theorem mem_arranged {alphabetize : Bool} {names : List String} {name : String} :
    name ∈ arranged alphabetize names ↔ name ∈ names := by
  unfold arranged
  split
  · exact mem_sorted _
  · exact Iff.rfl

/-- What is sorted by names is in the order of the names. -/
theorem pairwise_sorted_by {α : Type} (name : α → String) (xs : List α) :
    (sorted (fun x y => decide (name x ≤ name y)) xs).Pairwise fun x y => name x ≤ name y := by
  refine (pairwise_sorted ?_ ?_ xs).imp fun {a b} => of_decide_eq_true
  · exact fun a b => by simpa using String.le_total (name a) (name b)
  · intro a b c first second
    simp only [decide_eq_true_eq] at first second ⊢
    exact String.le_trans first second

/-- Sorting changes nothing about a list in order. -/
theorem sorted_of_pairwise {α : Type} {le : α → α → Bool} {xs : List α}
    (ordered : xs.Pairwise fun x y => le x y = true) : sorted le xs = xs := by
  induction xs with
  | nil => rfl
  | cons a rest ih =>
    rw [List.pairwise_cons] at ordered
    rw [sorted, ih ordered.2]
    cases rest with
    | nil => rfl
    | cons b rest => rw [place, if_pos (ordered.1 b List.mem_cons_self)]

/-- Different names have one sorted order. -/
theorem sorted_eq_of_mem_iff {names others : List String} (distinct : names.Nodup)
    (distinct' : others.Nodup) (same : ∀ name, name ∈ names ↔ name ∈ others) :
    sorted (fun a b => decide (a ≤ b)) names = sorted (fun a b => decide (a ≤ b)) others := by
  have ordered : ∀ xs : List String, (sorted (fun a b => decide (a ≤ b)) xs).Pairwise (· ≤ ·) :=
    pairwise_sorted_by id
  have perm : names.Perm others := (List.perm_ext_iff_of_nodup distinct distinct').2 same
  exact ((perm_sorted _ _).trans (perm.trans (perm_sorted _ _).symm)).eq_of_pairwise'
    (ordered names) (ordered others)

/-- Arranging names early changes nothing, if all of them are arranged in the end. -/
theorem arranged_firsts_flatMap {α : Type} (alphabetize : Bool) (f : α → List String)
    (xs : List α) :
    arranged alphabetize (firsts (xs.flatMap fun x => arranged alphabetize (firsts (f x)))) =
      arranged alphabetize (firsts (xs.flatMap f)) := by
  cases alphabetize with
  | false => exact firsts_flatMap_firsts f xs
  | true =>
    refine sorted_eq_of_mem_iff (nodup_firsts _) (nodup_firsts _) fun name => ?_
    simp only [mem_firsts, List.mem_flatMap, mem_arranged]

/-! ## Maps by their entries -/

namespace OrderedMap

variable {κ β : Type} [DecidableEq κ]

theorem lookup_eq_some_iff {k : κ} {v : β} {xs : List (κ × β)} (distinct : (xs.map Prod.fst).Nodup) :
    lookup k xs = some v ↔ (k, v) ∈ xs := by
  induction xs with
  | nil => simp [lookup]
  | cons entry rest ih =>
    obtain ⟨j, w⟩ := entry
    rw [List.map_cons, List.nodup_cons] at distinct
    rw [lookup, List.mem_cons, Prod.mk.injEq]
    by_cases here : j = k
    · subst here
      have absent : (j, v) ∉ rest := fun later =>
        distinct.1 (List.mem_map.2 ⟨(j, v), later, rfl⟩)
      simp [absent, eq_comm]
    · have other : ¬ k = j := fun same => here same.symm
      simp [here, other, ih distinct.2]

/-- A key has a value exactly when the map lists the entry. -/
theorem get?_eq_some_iff {m : OrderedMap κ β} {k : κ} {v : β} :
    m.get? k = some v ↔ (k, v) ∈ m.entries := lookup_eq_some_iff m.nodup

theorem isSome_get?_iff {m : OrderedMap κ β} {k : κ} : (m.get? k).isSome ↔ k ∈ m.keys := by
  rw [← contains_iff, contains]

theorem mem_keys_iff {m : OrderedMap κ β} {k : κ} : k ∈ m.keys ↔ ∃ v, m.get? k = some v := by
  rw [← isSome_get?_iff, Option.isSome_iff_exists]

/-- A new key has the new value. -/
theorem get?_insert_eq_some_iff {m : OrderedMap κ β} {k j : κ} {v w : β} (fresh : m.get? k = none) :
    (m.insert k w).get? j = some v ↔ j = k ∧ v = w ∨ m.get? j = some v := by
  rw [get?_insert]
  by_cases same : k = j
  · subst same
    simp [fresh, eq_comm]
  · simp [same, Ne.symm same]

/-- A new key leaves the values of the others alone. -/
theorem get?_insert_of_fresh {m : OrderedMap κ β} {k j : κ} {v w : β} (fresh : m.get? k = none)
    (found : m.get? j = some v) : (m.insert k w).get? j = some v :=
  (get?_insert_eq_some_iff fresh).2 (.inr found)

theorem put_of_not_mem {k : κ} {v : β} {xs : List (κ × β)} (fresh : k ∉ xs.map Prod.fst) :
    put k v xs = xs ++ [(k, v)] := by
  induction xs with
  | nil => rfl
  | cons entry rest ih =>
    rw [List.map_cons, List.mem_cons, not_or] at fresh
    rw [put, if_neg fun same => fresh.1 same.symm, ih fresh.2]
    rfl

/-- A map that has the keys of another one up to some entry gets a new entry for the key of that one. -/
theorem entries_insert_next {γ : Type} {full : OrderedMap κ γ} {bound rest : List (κ × γ)} {k : κ} {c : γ}
    (entries : full.entries = bound ++ (k, c) :: rest) {m : OrderedMap κ β}
    (keys : m.keys = bound.map Prod.fst) (v : β) : (m.insert k v).entries = m.entries ++ [(k, v)] := by
  have distinct := full.nodup
  rw [entries, List.map_append, List.map_cons] at distinct
  refine put_of_not_mem fun again => ?_
  have before : k ∈ bound.map Prod.fst := keys ▸ again
  exact (List.nodup_append.1 distinct).2.2 k before k List.mem_cons_self rfl

theorem entries_foldl_insert {xs : List (κ × β)} {m : OrderedMap κ β}
    (distinct : (m.entries.map Prod.fst ++ xs.map Prod.fst).Nodup) :
    (xs.foldl (fun m entry => m.insert entry.1 entry.2) m).entries = m.entries ++ xs := by
  induction xs generalizing m with
  | nil => simp
  | cons entry rest ih =>
    have fresh : entry.1 ∉ m.entries.map Prod.fst := by
      intro old
      exact (List.nodup_append.1 distinct).2.2 _ old _ (by simp) rfl
    have appended : (m.insert entry.1 entry.2).entries = m.entries ++ [entry] :=
      put_of_not_mem fresh
    rw [List.foldl_cons, ih]
    · rw [appended, List.append_assoc, List.singleton_append]
    · rw [appended]
      simpa using distinct

/-- A list of entries without repeated keys is a map as it stands. -/
theorem entries_ofList {xs : List (κ × β)} (distinct : (xs.map Prod.fst).Nodup) :
    (ofList xs).entries = xs := by
  rw [ofList, entries_foldl_insert]
  · rfl
  · simpa [empty] using distinct

end OrderedMap

/-! ## Keys of sets of types -/

theorem pairwise_sorted_refs (refs : List Ref) :
    (sorted (fun a b => decide (a ≤ b)) refs).Pairwise (· ≤ ·) := by
  have ordered : (sorted (fun a b => decide (a ≤ b)) refs).Pairwise fun a b => decide (a ≤ b) = true :=
    pairwise_sorted (fun a b => by simpa using Nat.le_total a b)
      (fun a b c first second => by
        simp only [decide_eq_true_eq] at first second ⊢
        exact Nat.le_trans first second) refs
  exact ordered.imp fun {a b} => of_decide_eq_true

theorem unionKey_perm (types : OrderedSet Ref) : (unionKey types).Perm types.toList :=
  perm_sorted _ _

theorem mem_unionKey {types : OrderedSet Ref} {r : Ref} : r ∈ unionKey types ↔ r ∈ types :=
  mem_sorted _

theorem pairwise_unionKey (types : OrderedSet Ref) : (unionKey types).Pairwise (· ≤ ·) :=
  pairwise_sorted_refs types.toList

theorem unionKey_eq_iff {s t : OrderedSet Ref} :
    unionKey s = unionKey t ↔ ∀ r, r ∈ s ↔ r ∈ t := by
  constructor
  · intro same r
    rw [← mem_unionKey, same, mem_unionKey]
  · intro same
    have perm : s.toList.Perm t.toList := (List.perm_ext_iff_of_nodup s.nodup t.nodup).2 same
    exact ((unionKey_perm s).trans (perm.trans (unionKey_perm t).symm)).eq_of_pairwise'
      (pairwise_unionKey s) (pairwise_unionKey t)

/-- The key of a set of types below a bound is one of the increasing lists below it. -/
theorem unionKey_mem_sublists {types : OrderedSet Ref} {bound : Nat}
    (inside : ∀ r ∈ types, r < bound) : unionKey types ∈ (List.range bound).sublists := by
  rw [List.mem_sublists]
  have distinct : (unionKey types).Nodup := (unionKey_perm types).nodup_iff.2 types.nodup
  refine List.sublist_of_subperm_of_pairwise (distinct.subperm ?_) (pairwise_unionKey types)
    List.pairwise_le_range
  intro r member
  exact List.mem_range.2 (inside r (mem_unionKey.1 member))

end SchemaGraph
