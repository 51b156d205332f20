import SchemaGraph.Merge.Folding
import SchemaGraph.Proofs.Merge.Contributors
import SchemaGraph.Proofs.Node
/-!
# Proofs.Merge.Partition -- sorting types by kind loses and repeats none

The table that a program fills holds for each kind the contributors to it, in their order
(`Graph.sortByKind_eq`). The walk puts every type into the set of its own kind, behind those that came
before (`Graph.toList_sortInto`). Moving a set changes two entries of the table. The moves to any have one
target and different sources (`KindTable.foldl_absorb`); the other three moves have six kinds between them,
so each of them finds its two sets as the walk left them (`KindTable.fold_eq`).
-/

namespace SchemaGraph

set_option autoImplicit false

theorem firsts_firsts_append {α : Type} [DecidableEq α] (xs ys : List α) :
    firsts (firsts xs ++ ys) = firsts (xs ++ ys) := by
  rw [firsts_append, firsts_append, firsts_of_nodup (nodup_firsts xs)]
  simp only [mem_firsts]

namespace OrderedSet

variable {α : Type} [DecidableEq α]

/-- Elements that arrive one by one are listed behind the others. -/
theorem foldl_insert (s : OrderedSet α) (xs : List α) : xs.foldl insert s = ofList (s.toList ++ xs) := by
  induction xs generalizing s with
  | nil => rw [List.foldl_nil, List.append_nil, ofList_toList]
  | cons x rest ih =>
    rw [List.foldl_cons, ih]
    apply ext
    rw [toList_ofList, toList_ofList, toList_insert]
    by_cases known : x ∈ s
    · rw [if_pos known, firsts_append, firsts_append, firsts_cons,
        List.filter_cons_of_neg (by simpa [← mem_def] using known), List.filter_filter]
      refine congrArg _ (List.filter_congr fun y _ => ?_)
      have other : y ∉ s.toList → y ≠ x := fun absent same => absent (same ▸ known)
      simpa using other
    · rw [if_neg known, List.append_assoc]
      rfl

end OrderedSet

/-! ## Subsumption -/

namespace Kind

/-- The first kind subsumes the second one. -/
inductive Subsumes (conflate : Bool) : Kind → Kind → Prop
  | any (own : Kind) : Subsumes conflate .any own
  | string : Subsumes conflate .string .enum
  | double : conflate = true → Subsumes conflate .double .integer
  | map : Subsumes conflate .map .record

variable {conflate : Bool} {present : Kind → Bool} {kind own : Kind}

/-- A kind contributes to itself or to a kind that subsumes it. -/
theorem eq_or_subsumes (subsumed : own.subsumedBy conflate present = kind) :
    own = kind ∨ kind.Subsumes conflate own := by
  subst subsumed
  unfold subsumedBy
  split
  · exact .inr (.any own)
  · split
    · split
      · exact .inr .string
      · exact .inl rfl
    · split
      · rename_i both
        exact .inr (.double (Bool.and_eq_true_iff.1 both).1)
      · exact .inl rfl
    · split
      · exact .inr .map
      · exact .inl rfl
    · exact .inl rfl

/-- Where a kind is present, one that it subsumes does not contribute to itself. -/
theorem Subsumes.subsumedBy_ne (subsumes : kind.Subsumes conflate own) (different : own ≠ kind)
    (here : present kind = true) : own.subsumedBy conflate present ≠ own := by
  cases any : present .any with
  | true =>
    rw [subsumedBy_of_any any]
    rintro rfl
    cases subsumes
    exact different rfl
  | false =>
    cases subsumes with
    | any => rw [here] at any; cases any
    | string => simp [subsumedBy, any, here]
    | double conflates => simp [subsumedBy, any, here, conflates]
    | map => simp [subsumedBy, any, here]

end Kind

/-! ## Tables -/

namespace KindTable

variable {table : KindTable}

theorem set_self (kind : Kind) (refs : OrderedSet Ref) : table.set kind refs kind = refs := if_pos rfl

theorem set_of_ne {kind other : Kind} (different : other ≠ kind) {refs : OrderedSet Ref} :
    table.set kind refs other = table other := if_neg different

/-- No type of the table is still to be visited. -/
def Apart (table : KindTable) (unvisited : List Ref) : Prop := ∀ kind, ∀ r ∈ table kind, r ∉ unvisited

theorem Apart.erase {unvisited : List Ref} (apart : table.Apart unvisited) (r : Ref) :
    table.Apart (unvisited.erase r) :=
  fun kind s listed again => apart kind s listed (List.mem_of_mem_erase again)

theorem Apart.put {unvisited : List Ref} (apart : table.Apart unvisited) (distinct : unvisited.Nodup)
    (kind : Kind) (r : Ref) : (table.put kind r).Apart (unvisited.erase r) := by
  intro other s listed
  by_cases here : other = kind
  · subst here
    rw [KindTable.put, set_self, OrderedSet.mem_insert] at listed
    rcases listed with old | rfl
    · exact apart.erase r _ s old
    · exact distinct.not_mem_erase
  · rw [KindTable.put, set_of_ne here] at listed
    exact apart.erase r other s listed

theorem toList_put {kind : Kind} {r : Ref} (new : r ∉ table kind) (other : Kind) :
    (table.put kind r other).toList = (table other).toList ++ if kind = other then [r] else [] := by
  by_cases here : kind = other
  · subst here
    rw [if_pos rfl, put, set_self, OrderedSet.toList_insert, if_neg new]
  · rw [if_neg here, List.append_nil, put, set_of_ne (Ne.symm here)]

/-! ### Moving sets -/

/-- Moving the types of one kind to another one changes these two sets. -/
theorem absorb_eq (table : KindTable) {source target : Kind} (different : source ≠ target) (kind : Kind) :
    table.absorb source target kind =
      if kind = target then .ofList ((table target).toList ++ (table source).toList)
      else if kind = source then .empty else table kind := by
  rw [absorb, OrderedSet.foldl_insert, set_of_ne different.symm]
  rfl

theorem subsume_eq (table : KindTable) {source target : Kind} (different : source ≠ target) (kind : Kind) :
    table.subsume source target kind =
      if (table target).isEmpty then table kind
      else if kind = target then .ofList ((table target).toList ++ (table source).toList)
      else if kind = source then .empty else table kind := by
  rw [subsume]
  split
  · rfl
  · exact table.absorb_eq different kind

/-- A kind that takes the sets of others, one after the other, has them behind its own. -/
theorem foldl_absorb (table : KindTable) {target : Kind} {kinds : List Kind} (distinct : kinds.Nodup)
    (others : target ∉ kinds) (kind : Kind) :
    kinds.foldl (fun moved source => moved.absorb source target) table kind =
      if kind = target then .ofList ((table target).toList ++ kinds.flatMap fun source => (table source).toList)
      else if kind ∈ kinds then .empty else table kind := by
  induction kinds generalizing table with
  | nil =>
    rw [List.foldl_nil, List.flatMap_nil, List.append_nil, OrderedSet.ofList_toList, if_neg List.not_mem_nil]
    split
    · rename_i same
      rw [same]
    · rfl
  | cons source rest ih =>
    rw [List.nodup_cons] at distinct
    have different : source ≠ target := fun same => others (same ▸ List.mem_cons_self)
    have later : target ∉ rest := fun listed => others (List.mem_cons_of_mem _ listed)
    have unmoved : ∀ other ∈ rest, table.absorb source target other = table other := by
      intro other listed
      rw [table.absorb_eq different, if_neg (ne_of_mem_of_not_mem listed later),
        if_neg (ne_of_mem_of_not_mem listed distinct.1)]
    have moved : (rest.flatMap fun other => (table.absorb source target other).toList) =
        rest.flatMap fun other => (table other).toList :=
      List.flatMap_congr fun other listed => by rw [unmoved other listed]
    rw [List.foldl_cons, ih _ distinct.2 later, moved]
    by_cases isTarget : kind = target
    · rw [if_pos isTarget, if_pos isTarget, table.absorb_eq different, if_pos rfl]
      apply OrderedSet.ext
      rw [OrderedSet.toList_ofList, OrderedSet.toList_ofList, OrderedSet.toList_ofList, firsts_firsts_append,
        List.append_assoc, List.flatMap_cons]
    · rw [if_neg isTarget, if_neg isTarget]
      by_cases here : kind = source
      · rw [here, if_neg distinct.1, if_pos List.mem_cons_self, table.absorb_eq different, if_neg different,
          if_pos rfl]
      · by_cases listed : kind ∈ rest
        · rw [if_pos listed, if_pos (List.mem_cons_of_mem _ listed)]
        · have other : kind ∉ source :: rest := by simp [here, listed]
          rw [if_neg listed, if_neg other, table.absorb_eq different, if_neg isTarget, if_neg here]

/-- Whether the table has types of the kind. -/
def present (table : KindTable) (kind : Kind) : Bool := !(table kind).isEmpty

theorem present_iff {kind : Kind} : table.present kind = true ↔ ∃ r, r ∈ table kind := by
  rw [present, Bool.not_eq_true', OrderedSet.isEmpty, List.isEmpty_eq_false_iff_exists_mem]
  rfl

/-- Folding puts the set of every kind behind the set of the kind that subsumes it. -/
theorem fold_eq (table : KindTable) (conflate : Bool) (kind : Kind) :
    table.fold conflate kind = .ofList (kind.startingWith.flatMap fun own =>
      if own.subsumedBy conflate table.present = kind then (table own).toList else []) := by
  by_cases any : (table .any).isEmpty = true
  · rw [fold, if_pos any]
    have none : OrderedSet.ofList [] = (OrderedSet.empty : OrderedSet Ref) := rfl
    cases conflate <;> cases kind with
    | string | enum =>
      by_cases string : (table .string).isEmpty = true <;>
        simp [Kind.startingWith, Kind.all, Kind.subsumedBy, subsume_eq, present, ite_eq_iff, none, any, string]
    | integer | double =>
      by_cases double : (table .double).isEmpty = true <;>
        simp [Kind.startingWith, Kind.all, Kind.subsumedBy, subsume_eq, present, ite_eq_iff, none, any, double]
    | map | record =>
      by_cases map : (table .map).isEmpty = true <;>
        simp [Kind.startingWith, Kind.all, Kind.subsumedBy, subsume_eq, present, ite_eq_iff, none, any, map]
    | _ => simp [Kind.startingWith, Kind.all, Kind.subsumedBy, subsume_eq, present, ite_eq_iff, any]
  · have all : ∀ own : Kind, own.subsumedBy conflate table.present = .any := fun own =>
      Kind.subsumedBy_of_any (by rw [present, Bool.not_eq_true _ |>.mp any]; rfl)
    rw [fold, if_neg any, table.foldl_absorb (Kind.nodup_all.filter _) (by decide)]
    simp only [all]
    by_cases same : kind = .any
    · rw [if_pos same, same]
      simp only [if_true]
      rfl
    · have listed : kind ∈ Kind.all.filter fun other => other ≠ .any :=
        List.mem_filter.2 ⟨Kind.mem_all kind, decide_eq_true same⟩
      have nothing : (kind.startingWith.flatMap fun own =>
          if Kind.any = kind then (table own).toList else []) = [] :=
        List.flatMap_eq_nil_iff.2 fun _ _ => if_neg (Ne.symm same)
      rw [if_neg same, if_pos listed, nothing]
      rfl

end KindTable

namespace Graph

variable (g : Graph)

theorem members_of_plain {r : Ref} (plain : g.kind? r ≠ some .union) : g.members r = [] :=
  List.eq_nil_iff_forall_not_mem.2 fun _ member => plain (g.kind?_eq_union member)

theorem ofKind_cons (r : Ref) (rest : List Ref) (kind : Kind) :
    g.ofKind (r :: rest) kind = (if g.kind? r = some kind then [r] else []) ++ g.ofKind rest kind := by
  rw [ofKind, List.filter_cons, ofKind]
  simp only [decide_eq_true_eq]
  split <;> rfl

/-- The types that are no unions, of those that are entered, are put behind the others of their kind. -/
theorem toList_sortInto {table : KindTable} {unvisited pending : List Ref} (distinct : unvisited.Nodup)
    (apart : table.Apart unvisited) (kind : Kind) :
    (g.sortInto table unvisited pending kind).toList =
      (table kind).toList ++
        g.ofKind ((explore g.members unvisited pending).filter fun r => g.kind? r ≠ some .union) kind := by
  fun_induction g.sortInto table unvisited pending with
  | case1 table unvisited => simp [explore_nil, ofKind]
  | case2 table unvisited r rest fresh members found ih =>
    have union : g.kind? r = some .union := g.kind?_of_type? found
    have same : g.members r = members.toList := by rw [Graph.members, found]
    rw [explore_cons, if_pos fresh, List.filter_cons_of_neg (by simp [union]), same]
    exact ih (distinct.erase r) (apart.erase r)
  | case3 table unvisited r rest fresh type noUnion found ih =>
    have own : g.kind? r = some type.kind := g.kind?_of_type? found
    have plain : g.kind? r ≠ some .union := by
      rw [own]
      rintro union
      obtain ⟨members, same⟩ := Ty.exists_union_of_kind (Option.some.inj union)
      exact noUnion members same
    have new : r ∉ table type.kind := fun listed => apart _ r listed fresh
    rw [explore_cons, if_pos fresh, List.filter_cons_of_pos (by simpa using plain), g.members_of_plain plain,
      List.nil_append, ofKind_cons, own, ih (distinct.erase r) (apart.put distinct type.kind r),
      KindTable.toList_put new, List.append_assoc]
    simp only [Option.some.injEq]
  | case4 table unvisited r rest fresh absent ih =>
    have none : g.kind? r = none := Option.map_eq_none_iff.2 (Option.map_eq_none_iff.1 absent)
    have plain : g.kind? r ≠ some .union := by simp [none]
    rw [explore_cons, if_pos fresh, List.filter_cons_of_pos (by simpa using plain), g.members_of_plain plain,
      List.nil_append, ofKind_cons, none, if_neg (by simp)]
    exact ih (distinct.erase r) (apart.erase r)
  | case5 table unvisited r rest known ih =>
    rw [explore_cons, if_neg known]
    exact ih distinct apart

/-! ## The contributors to every kind -/

variable (conflate : Bool) (types : List Ref)

theorem toList_sortInto_empty (kind : Kind) :
    (g.sortInto .empty g.refs types kind).toList = g.ofKind (g.leaves types) kind :=
  g.toList_sortInto List.nodup_range (fun _ _ listed => absurd listed List.not_mem_nil) kind

/-- The table holds for each kind the contributors to it, in their order. -/
theorem sortByKind_eq (kind : Kind) :
    g.sortByKind conflate types kind = g.contributorsTo conflate (g.leaves types) kind := by
  have present : (g.sortInto .empty g.refs types).present = g.hasKind (g.leaves types) := by
    funext other
    rw [Bool.eq_iff_iff, hasKind_iff, KindTable.present_iff]
    simp only [OrderedSet.mem_def, toList_sortInto_empty, mem_ofKind]
  rw [sortByKind, KindTable.fold_eq, contributorsTo, present]
  simp only [toList_sortInto_empty]

/-- The parts of what a set of types merges into are the sets of the table that are not empty. -/
theorem contributors_eq_sortByKind :
    g.contributors conflate types =
      (Kind.all.map fun kind => (kind, g.sortByKind conflate types kind)).filter
        fun entry => !entry.2.isEmpty := by
  simp only [sortByKind_eq]
  rfl

/-- The table sorts the types that are no unions, and that the given ones unfold to, by kind. -/
structure SortedBy (table : KindTable) : Prop where
  /-- Every such type is in the set of a kind, and nothing else is in any. -/
  exists_mem_iff : ∀ {r}, (∃ kind, r ∈ table kind) ↔
    r < g.size ∧ g.kind? r ≠ some .union ∧ ∃ t ∈ types, g.Unfolds t r
  /-- All sets together list no type twice. -/
  nodup : (Kind.all.flatMap fun kind => (table kind).toList).Nodup
  /-- A type is in the set of its own kind, or of one that subsumes its own. -/
  kind : ∀ {kind r}, r ∈ table kind → ∃ own, g.kind? r = some own ∧ (own = kind ∨ kind.Subsumes conflate own)
  /-- A set that is not empty has a type of that very kind. -/
  exists_kind : ∀ {kind}, table.present kind = true → ∃ r ∈ table kind, g.kind? r = some kind
  union : table .union = .empty
  /-- A kind that is present leaves nothing to a kind that it subsumes. -/
  excludes : ∀ {kind own}, kind.Subsumes conflate own → own ≠ kind → table.present kind = true →
    table own = .empty

variable {g conflate types} {kind : Kind} {r : Ref}

theorem mem_sortByKind : r ∈ g.sortByKind conflate types kind ↔ r ∈ g.leaves types ∧
    ∃ own, g.kind? r = some own ∧ own.subsumedBy conflate (g.hasKind (g.leaves types)) = kind := by
  rw [sortByKind_eq, mem_contributorsTo]

/-- The set of a kind is a part, unless it is empty. -/
theorem part_of_present (present : (g.sortByKind conflate types).present kind = true) :
    g.Part conflate types kind (g.sortByKind conflate types kind) :=
  ⟨g.sortByKind_eq conflate types kind, by simpa [KindTable.present] using present⟩

theorem sortByKind_eq_empty (none : ∀ r, r ∉ g.sortByKind conflate types kind) :
    g.sortByKind conflate types kind = .empty :=
  OrderedSet.ext (List.eq_nil_iff_forall_not_mem.2 none)

/-- A type contributes to one kind. -/
theorem kind_unique {other : Kind} (one : r ∈ g.sortByKind conflate types kind)
    (two : r ∈ g.sortByKind conflate types other) : kind = other := by
  obtain ⟨_, own, found, subsumed⟩ := mem_sortByKind.1 one
  obtain ⟨_, own', found', subsumed'⟩ := mem_sortByKind.1 two
  rw [found] at found'
  cases found'
  exact subsumed.symm.trans subsumed'

theorem sortedBy_sortByKind : g.SortedBy conflate types (g.sortByKind conflate types) where
  exists_mem_iff := by
    intro r
    rw [← g.mem_leaves_iff]
    constructor
    · rintro ⟨kind, member⟩
      exact (mem_sortByKind.1 member).1
    · intro leaf
      obtain ⟨kind, refs, part, member⟩ := exists_part conflate leaf
      exact ⟨kind, mem_sortByKind.2 (part.mem_iff.1 member)⟩
  nodup := by
    refine List.nodup_flatMap.2 ⟨fun kind _ => (g.sortByKind conflate types kind).nodup, ?_⟩
    exact Kind.nodup_all.imp fun different r one two => different (kind_unique one two)
  kind := by
    intro kind r member
    obtain ⟨_, own, found, subsumed⟩ := mem_sortByKind.1 member
    exact ⟨own, found, Kind.eq_or_subsumes subsumed⟩
  exists_kind present := (part_of_present present).exists_kind
  union := sortByKind_eq_empty fun r member =>
    (part_of_present (KindTable.present_iff.2 ⟨r, member⟩)).kind_ne_union rfl
  excludes := by
    intro kind own subsumes different present
    refine sortByKind_eq_empty fun r member => ?_
    obtain ⟨s, memberS, kindS⟩ := (part_of_present present).exists_kind
    have here : g.hasKind (g.leaves types) kind = true :=
      g.hasKind_iff.2 ⟨s, (mem_sortByKind.1 memberS).1, kindS⟩
    obtain ⟨_, other, _, subsumed⟩ := mem_sortByKind.1 member
    refine subsumes.subsumedBy_ne different here ?_
    rw [← subsumed]
    exact Kind.subsumedBy_subsumedBy

/-- Whatever the graph, its unions containing themselves or not, sorting types by kind ends. Each type that
is no union, and that the given ones unfold to, is in the set of one kind, once, and nothing else is. It is
there under its own kind or under one that subsumes it; a kind that has types has one of its own; unions
have none, and a kind that is present leaves nothing to those that it subsumes. The parts that types are
merged by are the sets that are not empty, in the order of the kinds. -/
theorem sortByKind_partitions (g : Graph) (conflate : Bool) (types : List Ref) :
    g.SortedBy conflate types (g.sortByKind conflate types) ∧
      g.contributors conflate types =
        (Kind.all.map fun kind => (kind, g.sortByKind conflate types kind)).filter
          fun entry => !entry.2.isEmpty :=
  ⟨sortedBy_sortByKind, g.contributors_eq_sortByKind conflate types⟩

end Graph

end SchemaGraph
