import SchemaGraph.Proofs.Graph.Walk
import SchemaGraph.Proofs.Node
import SchemaGraph.Proofs.Ordered
/-!
# Proofs.Graph.Traversal -- the order in which a walk enters references

A walk keeps its pending references on a stack. It may as well go on with each of them in turn, as a
recursion does that remembers what it entered: what comes first on the stack is gone through first
(`explore_append`).

A walk through images enters the images of what the walk enters, each where it comes first
(`explore_images`). References without successors may share an image; then only the first of them is
seen among the images.

Nor does a walk have to remember anything, if what it enters is listed once in the end
(`explore_flatMap`). So taking a union apart is a recursion on its members: its cases are theirs, in order,
each once (`Graph.toList_cases_of_union`), as long as unions end; on other types that recursion does not
end (`Graph.unionsEnd_iff_takenApart`).
-/

namespace SchemaGraph

set_option autoImplicit false

section Explore

variable {next next' : Ref → List Ref} {image : Ref → Ref} {all unvisited unvisited' : List Ref}

/-- What was entered before is left out of what is entered later. -/
theorem filter_erase_not_mem (distinct : unvisited.Nodup) (s : Ref) (entered : List Ref) :
    (unvisited.erase s).filter (· ∉ entered) = unvisited.filter (· ∉ s :: entered) := by
  rw [distinct.erase_eq_filter, List.filter_filter]
  refine List.filter_congr fun r _ => ?_
  by_cases same : r = s <;> simp [same]

/-- A walk goes through what the first pending references lead to, and then through the rest. -/
theorem explore_append (distinct : unvisited.Nodup) (first second : List Ref) :
    explore next unvisited (first ++ second) = explore next unvisited first ++
      explore next (unvisited.filter (· ∉ explore next unvisited first)) second := by
  fun_induction explore next unvisited first with
  | case1 unvisited => simp
  | case2 unvisited s rest fresh ih =>
    rw [List.cons_append, explore_cons, if_pos fresh, ← List.append_assoc, ih (distinct.erase s),
      filter_erase_not_mem distinct, List.cons_append]
  | case3 unvisited s rest known ih =>
    rw [List.cons_append, explore_cons, if_neg known, ih distinct]

/-- References that may not be entered are passed over. -/
theorem explore_skip {first rest : List Ref} (known : ∀ p ∈ first, p ∉ unvisited) :
    explore next unvisited (first ++ rest) = explore next unvisited rest := by
  induction first with
  | nil => rfl
  | cons p first ih =>
    rw [List.cons_append, explore_cons, if_neg (known p List.mem_cons_self)]
    exact ih fun other listed => known other (List.mem_cons_of_mem _ listed)

/-- A walk from images enters the images of what the walk enters, each at its first occurrence. -/
theorem explore_images (closed : ∀ r ∈ all, next r ⊆ all)
    (images : ∀ r ∈ all, next' (image r) = (next r).map image)
    (shared : ∀ a ∈ all, ∀ b ∈ all, image a = image b → a = b ∨ next a = [])
    {pending : List Ref} (distinct : unvisited.Nodup) (distinct' : unvisited'.Nodup)
    (entered : ∀ r ∈ all, image r ∈ unvisited' → r ∈ unvisited)
    (passed : ∀ r ∈ all, r ∈ unvisited → image r ∉ unvisited' → ∀ s ∈ next r, image s ∉ unvisited')
    (listed : pending ⊆ all) :
    explore next' unvisited' (pending.map image) =
      (firsts ((explore next unvisited pending).map image)).filter (· ∈ unvisited') := by
  fun_induction explore next unvisited pending generalizing unvisited' with
  | case1 unvisited => simp [explore_nil]
  | case2 unvisited s rest fresh ih =>
    obtain ⟨inS, inRest⟩ := List.cons_subset.1 listed
    have inside := List.append_subset.2 ⟨closed s inS, inRest⟩
    rw [List.map_cons, List.map_cons, explore_cons, firsts_cons]
    by_cases here : image s ∈ unvisited'
    · rw [if_pos here, images s inS, ← List.map_append,
        ih (distinct.erase s) (distinct'.erase (image s)) ?_ ?_ inside, List.filter_cons_of_pos (by simpa),
        List.filter_filter]
      · congr 1
        refine List.filter_congr fun n _ => ?_
        simp [distinct'.mem_erase_iff, Bool.and_comm]
      · intro r inR left
        obtain ⟨other, before⟩ := distinct'.mem_erase_iff.1 left
        exact distinct.mem_erase_iff.2 ⟨fun same => other (congrArg image same), entered r inR before⟩
      · intro r inR left gone
        obtain ⟨other, before⟩ := distinct.mem_erase_iff.1 left
        intro t successor inside'
        by_cases same : image r = image s
        · rw [(shared r inR s inS same).resolve_left other] at successor
          cases successor
        · have outside : image r ∉ unvisited' := fun still => gone (distinct'.mem_erase_iff.2 ⟨same, still⟩)
          exact passed r inR before outside t successor (List.mem_of_mem_erase inside')
    · -- the image may not be entered, and nor may what the reference leads to
      have ends : ∀ n ∈ (next s).map image, n ∉ unvisited' := by
        intro n listed
        obtain ⟨t, successor, rfl⟩ := List.mem_map.1 listed
        exact passed s inS fresh here t successor
      have later := ih (distinct.erase s) distinct' ?_ ?_ inside
      · rw [List.map_append, explore_skip ends] at later
        rw [if_neg here, later, List.filter_cons_of_neg (by simpa), List.filter_filter]
        refine List.filter_congr fun n _ => ?_
        by_cases same : n = image s <;> simp [same, here]
      · intro r inR left
        refine distinct.mem_erase_iff.2 ⟨?_, entered r inR left⟩
        rintro rfl
        exact here left
      · exact fun r inR left => passed r inR (List.mem_of_mem_erase left)
  | case3 unvisited s rest known ih =>
    obtain ⟨inS, inRest⟩ := List.cons_subset.1 listed
    rw [List.map_cons, explore_cons, if_neg (mt (entered s inS) known)]
    exact ih distinct distinct' entered passed inRest

/-- A walk that may enter fewer references enters what it may of those that it would, if what it may not
enter leads nowhere that it may. -/
theorem explore_fewer {fewer pending : List Ref} (closed : ∀ r ∈ all, next r ⊆ all)
    (distinct : unvisited.Nodup) (distinct' : fewer.Nodup) (sub : fewer ⊆ unvisited)
    (passed : ∀ r ∈ all, r ∈ unvisited → r ∉ fewer → ∀ s ∈ next r, s ∉ fewer) (listed : pending ⊆ all) :
    explore next fewer pending = (explore next unvisited pending).filter (· ∈ fewer) := by
  have walk : explore next fewer (pending.map id) =
      (firsts ((explore next unvisited pending).map id)).filter (· ∈ fewer) :=
    explore_images closed (fun r _ => (List.map_id (next r)).symm) (fun a _ b _ same => .inl same)
      distinct distinct' (fun r _ inside => sub inside) passed listed
  rwa [List.map_id, List.map_id, firsts_of_nodup (nodup_explore distinct)] at walk

theorem explore_closed {pending : List Ref} (closed : ∀ r, next r ⊆ unvisited) :
    ∀ r ∈ explore next unvisited pending, next r ⊆ explore next unvisited pending := by
  intro r entered s successor
  rw [mem_explore_iff_of_closed closed] at entered ⊢
  obtain ⟨p, listed, inside, path⟩ := entered
  exact ⟨p, listed, inside, path.tail successor⟩

/-- What is entered from several references is what is entered from each of them, in order, each once. -/
theorem explore_flatMap (distinct : unvisited.Nodup) (closed : ∀ r, next r ⊆ unvisited) (pending : List Ref) :
    explore next unvisited pending = firsts (pending.flatMap fun p => explore next unvisited [p]) := by
  induction pending with
  | nil => rw [explore_nil, List.flatMap_nil, firsts_nil]
  | cons p rest ih =>
    have inside : ∀ r ∈ unvisited ++ rest, next r ⊆ unvisited ++ rest :=
      fun r _ s successor => List.mem_append_left _ (closed r successor)
    have later : explore next (unvisited.filter (· ∉ explore next unvisited [p])) rest =
        (explore next unvisited rest).filter (· ∈ unvisited.filter (· ∉ explore next unvisited [p])) := by
      refine explore_fewer inside distinct (distinct.filter _) (fun r => List.mem_of_mem_filter) ?_
        (fun r => List.mem_append_right _)
      intro r _ fresh gone s successor open_
      have entered : r ∈ explore next unvisited [p] := by
        by_contra other
        exact gone (List.mem_filter.2 ⟨fresh, decide_eq_true other⟩)
      exact of_decide_eq_true (List.mem_filter.1 open_).2 (explore_closed closed r entered successor)
    rw [← List.singleton_append, explore_append distinct, later, List.singleton_append, List.flatMap_cons,
      firsts_append, ← ih, firsts_of_nodup (nodup_explore distinct)]
    congr 1
    refine List.filter_congr fun r entered => ?_
    simp [mem_of_mem_explore entered]

end Explore

/-! ## Unions taken apart -/

namespace Graph

variable {g : Graph} {r : Ref}

theorem members_subset_refs (r : Ref) : g.members r ⊆ g.refs :=
  fun _ member => g.mem_refs.2 (g.children_lt (g.children_of_mem_members member))

theorem toList_cases (r : Ref) :
    (g.cases r).toList = (g.leaves [r]).filter fun leaf => g.kind? leaf ≠ some .null := rfl

/-- A type that is no union is its own single case, and null has none. -/
theorem toList_cases_of_kind {kind : Kind} (isKind : g.kind? r = some kind) (plain : kind ≠ .union) :
    (g.cases r).toList = if kind = .null then [] else [r] := by
  obtain ⟨_, type, _⟩ := g.exists_type?_of_kind? isKind
  have single : g.leaves [r] = [r] := by
    refine g.leaves_of_plain (List.nodup_singleton r) ?_ ?_
    · simpa using g.lt_of_type? type
    · simpa [isKind] using plain
  rw [toList_cases, single]
  by_cases isNull : kind = .null
  · simp [isKind, isNull]
  · simp [isKind, isNull]

/-- The cases of a union are those of its members, in order, each once. -/
theorem toList_cases_of_union (ends : g.UnionsEnd) {members : OrderedSet Ref}
    (found : g.type? r = some (.union members)) :
    (g.cases r).toList = firsts (members.toList.flatMap fun m => (g.cases m).toList) := by
  have isUnion : g.kind? r = some .union := g.kind?_of_type? found
  have inside : r ∈ g.refs := g.mem_refs.2 (g.lt_of_type? found)
  have listed : g.members r = members.toList := by rw [Graph.members, found]
  -- a walk from the members does not come back to the union, so it does not matter that it was entered
  have apart : r ∉ explore g.members g.refs (g.members r) := by
    intro entered
    obtain ⟨m, member, _, path⟩ := (mem_explore_iff_of_closed members_subset_refs).1 entered
    exact ends r (Relation.TransGen.head' member path)
  have distinct : g.refs.Nodup := List.nodup_range
  have onward : ∀ n ∈ explore g.members g.refs (g.members r),
      g.members n ⊆ explore g.members g.refs (g.members r) := explore_closed members_subset_refs
  have below : explore g.members (g.refs.erase r) (g.members r) =
      explore g.members g.refs (g.members r) := by
    have walk : explore g.members (g.refs.erase r) (g.members r) =
        (explore g.members g.refs (g.members r)).filter (· ∈ g.refs.erase r) := by
      refine explore_fewer onward distinct (distinct.erase r) (fun _ => List.mem_of_mem_erase) ?_
        fun m member => ?_
      · intro n entered fresh gone
        have same : n = r := by
          by_contra other
          exact gone ((List.mem_erase_of_ne other).2 fresh)
        exact absurd (same ▸ entered) apart
      · exact (mem_explore_iff_of_closed members_subset_refs).2
          ⟨m, member, members_subset_refs r member, .refl⟩
    rw [walk, List.filter_eq_self]
    intro n entered
    have other : n ≠ r := fun same => apart (same ▸ entered)
    exact decide_eq_true ((List.mem_erase_of_ne other).2 (mem_of_mem_explore entered))
  have whole : ∀ m, (g.cases m).toList = (explore g.members g.refs [m]).filter fun leaf =>
      decide (g.kind? leaf ≠ some .null) && decide (g.kind? leaf ≠ some .union) :=
    fun m => List.filter_filter
  rw [whole, explore_cons, if_pos inside, List.append_nil, below, listed,
    explore_flatMap distinct members_subset_refs, List.filter_cons_of_neg (by simp [isUnion]),
    filter_firsts, List.filter_flatMap]
  simp only [whole]

/-- The cases of a type by a recursion on its members that remembers nothing of what it entered. Where it
comes back to a union that it is taking apart it does not end, and finds nothing. -/
inductive TakenApart (g : Graph) : Ref → List Ref → Prop
  | null {r : Ref} : g.kind? r = some .null → TakenApart g r []
  | plain {r : Ref} {kind : Kind} : g.kind? r = some kind → kind ≠ .null → kind ≠ .union →
      TakenApart g r [r]
  | union {r : Ref} {members : OrderedSet Ref} {found : Ref → List Ref} :
      g.type? r = some (.union members) → (∀ m ∈ members, TakenApart g m (found m)) →
      TakenApart g r (firsts (members.toList.flatMap found))

/-- Where the recursion ends, no chain of members goes on for ever. -/
theorem TakenApart.acc {found : List Ref} (apart : g.TakenApart r found) :
    Acc (fun m r => m ∈ g.members r) r := by
  have plain : ∀ {r : Ref} {kind : Kind}, g.kind? r = some kind → kind ≠ .union →
      Acc (fun m r => m ∈ g.members r) r := by
    intro r kind isKind other
    refine .intro r fun m member => absurd ?_ other
    exact Option.some.inj (isKind.symm.trans (g.kind?_eq_union member))
  induction apart with
  | null isNull => exact plain isNull (by decide)
  | plain isKind _ other => exact plain isKind other
  | @union r members _ type _ ih =>
    refine .intro r fun m member => ?_
    obtain ⟨others, same, listed⟩ := g.mem_members_iff.1 member
    cases type.symm.trans same
    exact ih m listed

/-- Where unions end, it finds no other cases than the walk, -/
theorem TakenApart.eq_cases (ends : g.UnionsEnd) {found : List Ref} (apart : g.TakenApart r found) :
    found = (g.cases r).toList := by
  induction apart with
  | null isNull => rw [toList_cases_of_kind isNull (by decide), if_pos rfl]
  | plain isKind notNull notUnion => rw [toList_cases_of_kind isKind notUnion, if_neg notNull]
  | union type _ ih =>
    rw [toList_cases_of_union ends type]
    exact congrArg firsts (List.flatMap_congr fun m listed => ih m listed)

/-- and it finds those. -/
theorem takenApart_cases (ends : g.UnionsEnd) (inside : r < g.size) :
    g.TakenApart r (g.cases r).toList := by
  induction r using ends.wellFounded.induction with
  | _ r ih =>
    obtain ⟨type, found⟩ := g.exists_type? inside
    have isKind := g.kind?_of_type? found
    by_cases isUnion : type.kind = .union
    · obtain ⟨members, rfl⟩ := Ty.exists_union_of_kind isUnion
      rw [toList_cases_of_union ends found]
      refine .union found fun m listed => ?_
      have member : m ∈ g.members r := g.mem_members_iff.2 ⟨members, found, listed⟩
      exact ih m member (g.children_lt (g.children_of_mem_members member))
    · rw [toList_cases_of_kind isKind isUnion]
      by_cases isNull : type.kind = .null
      · rw [if_pos isNull]
        exact .null (isNull ▸ isKind)
      · rw [if_neg isNull]
        exact .plain isKind isNull isUnion

/-- Where unions end, the recursion and the walk take a type apart into the same cases. -/
theorem takenApart_iff (ends : g.UnionsEnd) (inside : r < g.size) {found : List Ref} :
    g.TakenApart r found ↔ found = (g.cases r).toList :=
  ⟨fun apart => apart.eq_cases ends, fun same => same ▸ takenApart_cases ends inside⟩

/-- The recursion ends on every type exactly if unions end. -/
theorem unionsEnd_iff_takenApart : g.UnionsEnd ↔ ∀ r < g.size, ∃ found, g.TakenApart r found := by
  refine ⟨fun ends r inside => ⟨_, takenApart_cases ends inside⟩, fun apart => ?_⟩
  refine g.unionsEnd_iff_wellFounded.2 ⟨fun r => .intro r fun m member => ?_⟩
  have inside : m < g.size := g.children_lt (g.children_of_mem_members member)
  obtain ⟨_, found⟩ := apart m inside
  exact found.acc

end Graph

end SchemaGraph
