import SchemaGraph.Proofs.Graph.Traversal
/-!
# Proofs.Graph.Preorder -- reachable types in the order of a recursive search

`explore` keeps what is still to do on a stack. A reference is marked when it is taken from the stack and
not when it is put there, so the stack holds references that were entered meanwhile. A recursion has no
stack: it enters a reference, searches its successors, and goes on with the next one (`Enters`). Both enter
the same references in the same order (`enters_iff`), for what is on top of the stack is gone through
before what is below (`explore_append`).

* `Graph.reachable_is_preorder`: the reachable types, and those with names of their own, by kind, are listed
  in the order in which the recursion enters them.
-/

namespace SchemaGraph

set_option autoImplicit false

/-! ## Depth-first search as a recursion -/

/-- `Enters next visited pending entered`: a search that goes through the pending references in order,
with the visited ones behind it, enters these references, in this order. A visited reference is passed
over. Any other is entered; then its successors are gone through, and after them the pending references
that are left. -/
inductive Enters (next : Ref → List Ref) : List Ref → List Ref → List Ref → Prop
  | done {visited : List Ref} : Enters next visited [] []
  | pass {visited rest entered : List Ref} {r : Ref} : r ∈ visited → Enters next visited rest entered →
      Enters next visited (r :: rest) entered
  | enter {visited rest inside after : List Ref} {r : Ref} : r ∉ visited →
      Enters next (r :: visited) (next r) inside → Enters next (inside ++ r :: visited) rest after →
      Enters next visited (r :: rest) (r :: (inside ++ after))

section Search

variable {next : Ref → List Ref} {all visited pending entered other : List Ref}

/-- The recursion has one outcome at most. -/
theorem Enters.unique (one : Enters next visited pending entered)
    (two : Enters next visited pending other) : entered = other := by
  induction one generalizing other with
  | done =>
    cases two
    rfl
  | pass known _ ih =>
    cases two with
    | pass _ rest => exact ih rest
    | enter fresh _ _ => exact absurd known fresh
  | enter fresh _ _ ihInside ihAfter =>
    cases two with
    | pass known _ => exact absurd known fresh
    | enter _ inside after =>
      obtain rfl := ihInside inside
      rw [ihAfter after]

/-- What is left to visit after a reference was entered, and others from it. -/
theorem filter_visited (distinct : all.Nodup) (r : Ref) (inside visited : List Ref) :
    ((all.filter (· ∉ visited)).erase r).filter (· ∉ inside) =
      all.filter (· ∉ inside ++ r :: visited) := by
  rw [(distinct.filter _).erase_eq_filter, List.filter_filter, List.filter_filter]
  refine List.filter_congr fun s _ => ?_
  by_cases same : s = r
  · simp [same]
  · simp [same, bne_iff_ne.2 same]

/-- The recursion ends, and enters what the walk with a stack enters, in the same order. -/
theorem enters_explore (distinct : all.Nodup) (closed : ∀ r ∈ all, next r ⊆ all) (inside : pending ⊆ all) :
    Enters next visited pending (explore next (all.filter (· ∉ visited)) pending) := by
  -- every reference that is entered leaves fewer to visit, and every one that is passed over fewer pending
  induction left : (all.filter (· ∉ visited)).length using Nat.strong_induction_on
    generalizing visited pending with
  | _ count fewer =>
    induction pending with
    | nil =>
      rw [explore_nil]
      exact .done
    | cons r rest ih =>
      obtain ⟨here, later⟩ := List.cons_subset.1 inside
      rw [explore_cons]
      by_cases known : r ∈ visited
      · rw [if_neg (by simp [known])]
        exact .pass known (ih later)
      · have fresh : r ∈ all.filter (· ∉ visited) := List.mem_filter.2 ⟨here, decide_eq_true known⟩
        have shrinks : ∀ more, (all.filter (· ∉ more ++ r :: visited)).length < count := by
          intro more
          rw [← filter_visited distinct, ← left]
          refine Nat.lt_of_le_of_lt (List.length_filter_le _ _) ?_
          rw [List.length_erase_of_mem fresh]
          exact Nat.sub_one_lt (Nat.ne_of_gt (List.length_pos_of_mem fresh))
        have opened : (all.filter (· ∉ visited)).erase r = all.filter (· ∉ r :: visited) := by
          simpa using filter_visited distinct r [] visited
        rw [if_pos fresh, explore_append ((distinct.filter _).erase r), filter_visited distinct, opened]
        exact .enter known (fewer _ (shrinks []) (closed r here) rfl) (fewer _ (shrinks _) later rfl)

theorem enters_iff (distinct : all.Nodup) (closed : ∀ r ∈ all, next r ⊆ all) (inside : pending ⊆ all) :
    Enters next visited pending entered ↔
      entered = explore next (all.filter (· ∉ visited)) pending := by
  have searched : Enters next visited pending (explore next (all.filter (· ∉ visited)) pending) :=
    enters_explore distinct closed inside
  constructor
  · exact fun enters => enters.unique searched
  · rintro rfl
    exact searched

end Search

namespace Graph

variable (g : Graph)

/-! ## Types with names of their own -/

/-- Listing types one after the other appends those of each kind. -/
theorem foldl_push (types : List Ref) (named : NamedTypes) :
    types.foldl
        (fun named r =>
          match g.kind? r with
          | some kind => named.push r kind
          | none => named)
        named =
      ⟨named.records ++ types.filter (fun r => g.kind? r = some .record),
        named.maps ++ types.filter (fun r => g.kind? r = some .map),
        named.enums ++ types.filter (fun r => g.kind? r = some .enum),
        named.unions ++ types.filter (fun r => g.kind? r = some .union)⟩ := by
  induction types generalizing named with
  | nil => simp
  | cons r rest ih =>
    rw [List.foldl_cons, ih]
    cases found : g.kind? r with
    | none => simp [found]
    | some kind => cases kind <;> simp [NamedTypes.push, found]

theorem namedTypes_eq : g.namedTypes =
    ⟨g.reachableOf .record, g.reachableOf .map, g.reachableOf .enum, g.reachableOf .union⟩ :=
  g.foldl_push g.reachable .empty

/-! ## The reachable types -/

/-- A recursive depth-first search from the top-level types enters the types that they lead to, each once,
in the order in which the reachable types are listed. The types with names of their own are listed in that
order too, each kind for itself. -/
theorem reachable_is_preorder :
    (∀ order, Enters g.children [] g.tops.values order ↔ order = g.reachable) ∧
      g.reachable.Nodup ∧ (∀ r, r ∈ g.reachable ↔ ∃ t ∈ g.tops.values, g.Leads t r) ∧
      g.namedTypes.records = g.reachable.filter (fun r => g.kind? r = some .record) ∧
      g.namedTypes.maps = g.reachable.filter (fun r => g.kind? r = some .map) ∧
      g.namedTypes.enums = g.reachable.filter (fun r => g.kind? r = some .enum) ∧
      g.namedTypes.unions = g.reachable.filter (fun r => g.kind? r = some .union) := by
  have closed : ∀ r ∈ g.refs, g.children r ⊆ g.refs := fun _ _ _ child => g.mem_refs.2 (g.children_lt child)
  have inside : g.tops.values ⊆ g.refs := fun _ top => g.mem_refs.2 (g.tops_lt top)
  refine ⟨fun order => ?_, g.nodup_reachable, fun _ => g.mem_reachable_iff, ?_⟩
  · have walk : Enters g.children [] g.tops.values order ↔
        order = explore g.children (g.refs.filter (· ∉ [])) g.tops.values :=
      enters_iff List.nodup_range closed inside
    simpa [reachable] using walk
  · rw [namedTypes_eq]
    exact ⟨rfl, rfl, rfl, rfl⟩

end Graph

end SchemaGraph
