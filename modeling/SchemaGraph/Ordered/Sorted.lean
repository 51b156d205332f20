/-!
# Ordered.Sorted -- lists in increasing order

Sorting by insertion, which evaluates inside proofs as well as when run, and strictly increasing
lists of entries with text keys, the form in which a bag of attributes is kept.

* `mem_sorted`, `pairwise_sorted`: sorting keeps the elements and orders them.
* `lookupKey_insertKey`: a write into a sorted list of entries is seen at its key and nowhere
  else; `Increasing.insertKey` keeps the list strictly increasing.
-/

namespace SchemaGraph

set_option autoImplicit false

/-! ## Sorting -/

section Sorting

variable {α : Type} (le : α → α → Bool)

/-- Puts an element in front of the first one that it may precede. -/
def place (a : α) : List α → List α
  | [] => [a]
  | b :: rest => if le a b then a :: b :: rest else b :: place a rest

/-- The elements in increasing order. -/
def sorted : List α → List α
  | [] => []
  | a :: rest => place le a (sorted rest)

theorem perm_place (a : α) (xs : List α) : (place le a xs).Perm (a :: xs) := by
  induction xs with
  | nil => exact .refl _
  | cons b rest ih =>
    rw [place]
    split
    · exact .refl _
    · exact (ih.cons b).trans (.swap a b rest)

theorem perm_sorted (xs : List α) : (sorted le xs).Perm xs := by
  induction xs with
  | nil => exact .refl _
  | cons a rest ih => exact (perm_place le a _).trans (ih.cons a)

@[simp] theorem mem_sorted {a : α} {xs : List α} : a ∈ sorted le xs ↔ a ∈ xs :=
  (perm_sorted le xs).mem_iff

variable {le}

theorem pairwise_place (total : ∀ a b, le a b = true ∨ le b a = true)
    (trans : ∀ a b c, le a b = true → le b c = true → le a c = true)
    (a : α) {xs : List α} (ordered : xs.Pairwise (le · · = true)) :
    (place le a xs).Pairwise (le · · = true) := by
  induction xs with
  | nil => simp [place]
  | cons b rest ih =>
    rw [List.pairwise_cons] at ordered
    rw [place]
    split
    · rename_i first
      refine List.pairwise_cons.2 ⟨?_, List.pairwise_cons.2 ordered⟩
      intro c member
      rcases List.mem_cons.1 member with rfl | later
      · exact first
      · exact trans _ _ _ first (ordered.1 c later)
    · rename_i later
      refine List.pairwise_cons.2 ⟨?_, ih ordered.2⟩
      intro c member
      rcases List.mem_cons.1 ((perm_place le a rest).mem_iff.1 member) with rfl | old
      · exact (total c b).resolve_left later
      · exact ordered.1 c old

theorem pairwise_sorted (total : ∀ a b, le a b = true ∨ le b a = true)
    (trans : ∀ a b c, le a b = true → le b c = true → le a c = true) (xs : List α) :
    (sorted le xs).Pairwise (le · · = true) := by
  induction xs with
  | nil => exact .nil
  | cons a rest ih => exact pairwise_place total trans a ih

end Sorting

/-! ## Sorted entries -/

section Entries

variable {β : Type}

/-- The keys increase strictly, in the order of code points. -/
def Increasing (xs : List (String × β)) : Prop := xs.Pairwise fun x y => x.1 < y.1

/-- Gives a key its value, at the place of the key in the order. -/
def insertKey (k : String) (v : β) : List (String × β) → List (String × β)
  | [] => [(k, v)]
  | (k', v') :: rest =>
    if k < k' then (k, v) :: (k', v') :: rest
    else if k = k' then (k, v) :: rest
    else (k', v') :: insertKey k v rest

/-- The value of a key. -/
def lookupKey (k : String) : List (String × β) → Option β
  | [] => none
  | (k', v) :: rest => if k' = k then some v else lookupKey k rest

/-- The entries of all other keys. -/
def eraseKey (k : String) (xs : List (String × β)) : List (String × β) :=
  xs.filter fun entry => entry.1 ≠ k

theorem mem_keys_insertKey {k j : String} {v : β} {xs : List (String × β)} :
    j ∈ (insertKey k v xs).map Prod.fst ↔ j = k ∨ j ∈ xs.map Prod.fst := by
  induction xs with
  | nil => simp [insertKey]
  | cons entry rest ih =>
    obtain ⟨k', v'⟩ := entry
    rw [insertKey]
    split
    · simp
    · split
      · rename_i same
        subst same
        simp
      · simp only [List.map_cons, List.mem_cons, ih]
        constructor
        · rintro (here | new | old)
          · exact .inr (.inl here)
          · exact .inl new
          · exact .inr (.inr old)
        · rintro (new | here | old)
          · exact .inr (.inl new)
          · exact .inl here
          · exact .inr (.inr old)

theorem increasing_cons {k : String} {v : β} {xs : List (String × β)} :
    Increasing ((k, v) :: xs) ↔ (∀ j ∈ xs.map Prod.fst, k < j) ∧ Increasing xs := by
  simp [Increasing]

theorem Increasing.insertKey {k : String} {v : β} {xs : List (String × β)}
    (ordered : Increasing xs) : Increasing (insertKey k v xs) := by
  induction xs with
  | nil => simp [Increasing, SchemaGraph.insertKey]
  | cons entry rest ih =>
    obtain ⟨k', v'⟩ := entry
    have parts := increasing_cons.1 ordered
    rw [SchemaGraph.insertKey]
    split
    · rename_i before
      refine increasing_cons.2 ⟨?_, ordered⟩
      intro j member
      rcases List.mem_cons.1 member with here | later
      · exact here ▸ before
      · exact String.lt_trans before (parts.1 j later)
    · rename_i notBefore
      split
      · rename_i same
        subst same
        exact increasing_cons.2 parts
      · rename_i different
        refine increasing_cons.2 ⟨?_, ih parts.2⟩
        intro j member
        rcases mem_keys_insertKey.1 member with new | old
        · subst new
          exact Std.lt_of_le_of_ne (String.not_lt.1 notBefore) fun same => different same.symm
        · exact parts.1 j old

theorem Increasing.eraseKey {k : String} {xs : List (String × β)} (ordered : Increasing xs) :
    Increasing (eraseKey k xs) := List.Pairwise.filter _ ordered

theorem lookupKey_insertKey {k j : String} {v : β} {xs : List (String × β)}
    (ordered : Increasing xs) :
    lookupKey j (insertKey k v xs) = if k = j then some v else lookupKey j xs := by
  induction xs with
  | nil => rfl
  | cons entry rest ih =>
    obtain ⟨k', v'⟩ := entry
    rw [insertKey]
    split
    · rfl
    · split
      · rename_i same
        subst same
        by_cases hit : k = j <;> simp [lookupKey, hit]
      · rename_i different
        rw [lookupKey, lookupKey, ih (increasing_cons.1 ordered).2]
        by_cases hit : k' = j
        · have other : ¬ k = j := fun same => different (same.trans hit.symm)
          rw [if_pos hit, if_pos hit, if_neg other]
        · rw [if_neg hit, if_neg hit]

theorem lookupKey_eraseKey {k j : String} {xs : List (String × β)} :
    lookupKey j (eraseKey k xs) = if k = j then none else lookupKey j xs := by
  induction xs with
  | nil => simp [eraseKey, lookupKey]
  | cons entry rest ih =>
    obtain ⟨k', v'⟩ := entry
    rw [eraseKey] at ih ⊢
    by_cases same : k' = k
    · subst same
      simp only [ne_eq, decide_not, List.filter_cons, decide_true, Bool.not_true,
        Bool.false_eq_true, if_false] at ih ⊢
      rw [ih, lookupKey]
      by_cases hit : k' = j <;> simp [hit]
    · simp only [ne_eq, decide_not, List.filter_cons, same, decide_false, Bool.not_false,
        if_true, lookupKey] at ih ⊢
      rw [ih]
      by_cases hit : k' = j
      · have other : ¬ k = j := fun eq => same (hit.trans eq.symm)
        simp [hit, other]
      · simp [hit]

end Entries

end SchemaGraph
