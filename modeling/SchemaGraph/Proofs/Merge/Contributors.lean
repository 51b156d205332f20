import Mathlib.Data.List.Nodup
import SchemaGraph.Merge.Contributors
import SchemaGraph.Proofs.Graph.Walk
/-!
# Proofs.Merge.Contributors -- sorting leaves by the kind that they contribute to

Every leaf contributes to exactly one kind, its own or one that subsumes it, and a kind with
contributors has one of that very kind (`Part.exists_kind`). So the contributors to one kind, taken
by themselves, all contribute to that kind again, in the same order (`Part.contributors_eq`): merging
a part of a set of types is merging a set of types that has this one part. That is why a member of
a union and the unification of its contributors may share one place in the memory of unified sets.
-/

namespace SchemaGraph

set_option autoImplicit false

/-! ## Subsumption -/

namespace Kind

variable {conflate : Bool} {present fewer : Kind → Bool} {own : Kind}

theorem subsumedBy_of_any (any : present .any = true) : own.subsumedBy conflate present = .any :=
  if_pos any

/-- A kind contributes to itself or to a kind that is present. -/
theorem subsumedBy_eq_or_present :
    own.subsumedBy conflate present = own ∨ present (own.subsumedBy conflate present) = true := by
  cases any : present .any with
  | true => exact .inr (by rw [subsumedBy_of_any any, any])
  | false =>
    cases own with
    | enum => cases string : present .string <;> simp [subsumedBy, any, string]
    | integer => cases double : present .double <;> cases conflate <;> simp [subsumedBy, any, double]
    | record => cases map : present .map <;> simp [subsumedBy, any, map]
    | _ => simp [subsumedBy, any]

theorem subsumedBy_present (here : present own = true) :
    present (own.subsumedBy conflate present) = true := by
  have itself_or_present : own.subsumedBy conflate present = own ∨
      present (own.subsumedBy conflate present) = true := subsumedBy_eq_or_present
  rcases itself_or_present with same | there
  · rw [same, here]
  · exact there

/-- A kind that subsumes another contributes to itself. -/
theorem subsumedBy_subsumedBy :
    (own.subsumedBy conflate present).subsumedBy conflate present
      = own.subsumedBy conflate present := by
  cases any : present .any with
  | true => rw [subsumedBy_of_any any, subsumedBy_of_any any]
  | false =>
    cases own with
    | enum => cases string : present .string <;> simp [subsumedBy, any, string]
    | integer => cases double : present .double <;> cases conflate <;> simp [subsumedBy, any, double]
    | record => cases map : present .map <;> simp [subsumedBy, any, map]
    | _ => simp [subsumedBy, any]

/-- With fewer kinds present a leaf contributes to the same kind, as long as that one is still
present. -/
theorem subsumedBy_of_fewer (less : ∀ kind, fewer kind = true → present kind = true)
    (still : fewer (own.subsumedBy conflate present) = true) :
    own.subsumedBy conflate fewer = own.subsumedBy conflate present := by
  have absent : ∀ {kind}, present kind = false → fewer kind = false := by
    intro kind gone
    cases here : fewer kind with
    | false => rfl
    | true => rw [less kind here] at gone; cases gone
  cases any : present .any with
  | true =>
    rw [subsumedBy_of_any any] at still ⊢
    exact subsumedBy_of_any still
  | false =>
    cases own with
    | enum =>
      cases string : present .string with
      | true => simp_all [subsumedBy]
      | false => simp [subsumedBy, any, string, absent any, absent string]
    | integer =>
      cases conflate with
      | false => simp [subsumedBy, any, absent any]
      | true =>
        cases double : present .double with
        | true => simp_all [subsumedBy]
        | false => simp [subsumedBy, any, double, absent any, absent double]
    | record =>
      cases map : present .map with
      | true => simp_all [subsumedBy]
      | false => simp [subsumedBy, any, map, absent any, absent map]
    | _ => simp [subsumedBy, any, absent any]

/-- The kinds to which a leaf of a kind may contribute. -/
theorem subsumedBy_cases {kind : Kind}
    (subsumed : own.subsumedBy conflate present = kind) :
    kind = .any ∨ kind = own ∨ (own = .enum ∧ kind = .string) ∨
      (own = .integer ∧ kind = .double) ∨ (own = .record ∧ kind = .map) := by
  subst subsumed
  unfold subsumedBy
  split
  · exact .inl rfl
  · split
    · split
      · exact .inr (.inr (.inl ⟨rfl, rfl⟩))
      · exact .inr (.inl rfl)
    · split
      · exact .inr (.inr (.inr (.inl ⟨rfl, rfl⟩)))
      · exact .inr (.inl rfl)
    · split
      · exact .inr (.inr (.inr (.inr ⟨rfl, rfl⟩)))
      · exact .inr (.inl rfl)
    · exact .inr (.inl rfl)

/-- A record contributes to records where nothing subsumes it. -/
theorem subsumedBy_record (noAny : present .any = false) (noMap : present .map = false) :
    Kind.record.subsumedBy conflate present = .record := by simp [subsumedBy, noAny, noMap]

theorem mem_startingWith (kind other : Kind) : other ∈ kind.startingWith := by
  rw [startingWith]
  by_cases same : other = kind
  · rw [same]
    exact List.mem_cons_self
  · exact List.mem_cons_of_mem _ (List.mem_filter.2 ⟨mem_all other, decide_eq_true same⟩)

theorem nodup_startingWith (kind : Kind) : kind.startingWith.Nodup := by
  cases kind <;> decide

theorem nodup_all : all.Nodup := by decide

end Kind

/-! ## Lists sorted into blocks -/

section Blocks

variable {ι α : Type} [DecidableEq ι]

/-- Of the blocks of a list, all but one left out. -/
theorem flatMap_single {keys : List ι} (distinct : keys.Nodup) {key : ι} (listed : key ∈ keys)
    (block : ι → List α) :
    (keys.flatMap fun k => if k = key then block k else []) = block key := by
  induction keys with
  | nil => cases listed
  | cons k rest ih =>
    rw [List.nodup_cons] at distinct
    rw [List.flatMap_cons]
    by_cases here : k = key
    · subst here
      have none : (rest.flatMap fun j => if j = k then block j else []) = [] := by
        rw [List.flatMap_eq_nil_iff]
        intro j later
        have different : j ≠ k := fun same => distinct.1 (same ▸ later)
        exact if_neg different
      rw [none, if_pos rfl, List.append_nil]
    · rw [if_neg here, List.nil_append]
      exact ih distinct.2 ((List.mem_cons.1 listed).resolve_left fun same => here same.symm)

/-- A list without repetitions, filtered by a test that one of its elements passes alone. -/
theorem filter_eq_singleton {xs : List α} (distinct : xs.Nodup) {a : α} (listed : a ∈ xs)
    {test : α → Bool} (only : ∀ b ∈ xs, test b = true ↔ b = a) : xs.filter test = [a] := by
  induction xs with
  | nil => cases listed
  | cons b rest ih =>
    rw [List.nodup_cons] at distinct
    have later : ∀ c ∈ rest, test c = true ↔ c = a := fun c member =>
      only c (List.mem_cons_of_mem _ member)
    by_cases here : b = a
    · subst here
      have none : rest.filter test = [] := by
        rw [List.filter_eq_nil_iff]
        intro c member passes
        exact distinct.1 ((later c member).1 passes ▸ member)
      rw [List.filter_cons_of_pos ((only b List.mem_cons_self).2 rfl), none]
    · rw [List.filter_cons_of_neg fun passes => here ((only b List.mem_cons_self).1 passes)]
      exact ih distinct.2 ((List.mem_cons.1 listed).resolve_left fun same => here same.symm) later

end Blocks

namespace Graph

variable (g : Graph) (conflate : Bool)

/-! ## Contributors to a kind -/

theorem mem_ofKind {types : List Ref} {kind : Kind} {r : Ref} :
    r ∈ g.ofKind types kind ↔ r ∈ types ∧ g.kind? r = some kind := by
  simp [ofKind]

theorem hasKind_iff {types : List Ref} {kind : Kind} :
    g.hasKind types kind = true ↔ ∃ r ∈ types, g.kind? r = some kind := by
  simp [hasKind]

theorem mem_contributorsTo {leaves : List Ref} {kind : Kind} {r : Ref} :
    r ∈ g.contributorsTo conflate leaves kind ↔
      r ∈ leaves ∧ ∃ own, g.kind? r = some own ∧
        own.subsumedBy conflate (g.hasKind leaves) = kind := by
  rw [contributorsTo, OrderedSet.mem_ofList, List.mem_flatMap]
  constructor
  · rintro ⟨own, _, member⟩
    split at member
    · rename_i subsumed
      obtain ⟨leaf, kindOf⟩ := g.mem_ofKind.1 member
      exact ⟨leaf, own, kindOf, subsumed⟩
    · cases member
  · rintro ⟨leaf, own, kindOf, subsumed⟩
    refine ⟨own, kind.mem_startingWith own, ?_⟩
    rw [if_pos subsumed]
    exact g.mem_ofKind.2 ⟨leaf, kindOf⟩

/-- A kind and its contributors: one part of what a set of types merges into. -/
structure Part (types : List Ref) (kind : Kind) (refs : OrderedSet Ref) : Prop where
  eq : refs = g.contributorsTo conflate (g.leaves types) kind
  nonempty : refs.isEmpty = false

theorem mem_contributors {types : List Ref} {kind : Kind} {refs : OrderedSet Ref} :
    (kind, refs) ∈ g.contributors conflate types ↔ g.Part conflate types kind refs := by
  simp only [contributors, List.mem_filter, List.mem_map, Prod.mk.injEq, Bool.not_eq_true']
  constructor
  · rintro ⟨⟨k, _, rfl, same⟩, nonempty⟩
    exact ⟨same.symm, nonempty⟩
  · rintro ⟨same, nonempty⟩
    exact ⟨⟨kind, Kind.mem_all kind, rfl, same.symm⟩, nonempty⟩

theorem nodup_kinds_contributors (types : List Ref) :
    ((g.contributors conflate types).map Prod.fst).Nodup := by
  have sub : ((g.contributors conflate types).map Prod.fst).Sublist Kind.all := by
    have base : Kind.all = ((Kind.all.map fun kind =>
        (kind, g.contributorsTo conflate (g.leaves types) kind)).map Prod.fst) := by
      rw [List.map_map]
      exact (List.map_id _).symm
    rw [base]
    exact (List.filter_sublist).map Prod.fst
  exact sub.nodup Kind.nodup_all

section Parts

variable {g conflate} {types : List Ref} {kind : Kind} {refs : OrderedSet Ref}

theorem Part.of_contributors_eq (single : g.contributors conflate types = [(kind, refs)]) :
    g.Part conflate types kind refs := by
  refine (g.mem_contributors conflate).1 ?_
  rw [single]
  exact List.mem_cons_self

theorem Part.mem_iff (part : g.Part conflate types kind refs) {r : Ref} :
    r ∈ refs ↔ r ∈ g.leaves types ∧ ∃ own, g.kind? r = some own ∧
      own.subsumedBy conflate (g.hasKind (g.leaves types)) = kind := by
  rw [part.eq, mem_contributorsTo]

theorem Part.leaf (part : g.Part conflate types kind refs) {r : Ref} (member : r ∈ refs) :
    r ∈ g.leaves types := (part.mem_iff.1 member).1

theorem Part.exists_mem (part : g.Part conflate types kind refs) : ∃ r, r ∈ refs := by
  have nonempty := part.nonempty
  rw [OrderedSet.isEmpty] at nonempty
  cases listed : refs.toList with
  | nil => rw [listed] at nonempty; cases nonempty
  | cons r rest => exact ⟨r, by rw [OrderedSet.mem_def, listed]; exact List.mem_cons_self⟩

/-- One of the contributors to a kind has that very kind. -/
theorem Part.exists_kind (part : g.Part conflate types kind refs) :
    ∃ r ∈ refs, g.kind? r = some kind := by
  obtain ⟨r, member⟩ := part.exists_mem
  obtain ⟨leaf, own, kindOf, subsumed⟩ := part.mem_iff.1 member
  have here : g.hasKind (g.leaves types) own = true := g.hasKind_iff.2 ⟨r, leaf, kindOf⟩
  have present : g.hasKind (g.leaves types) kind = true := by
    rw [← subsumed]
    exact Kind.subsumedBy_present here
  obtain ⟨s, leafS, kindS⟩ := g.hasKind_iff.1 present
  have itself : kind.subsumedBy conflate (g.hasKind (g.leaves types)) = kind := by
    rw [← subsumed]
    exact Kind.subsumedBy_subsumedBy
  exact ⟨s, part.mem_iff.2 ⟨leafS, kind, kindS, itself⟩, kindS⟩

/-- Only records contribute to a record. -/
theorem Part.kind_of_record (part : g.Part conflate types .record refs) {r : Ref} (member : r ∈ refs) :
    g.kind? r = some .record := by
  obtain ⟨_, own, kindOf, subsumed⟩ := part.mem_iff.1 member
  rcases Kind.subsumedBy_cases subsumed with none | same | ⟨_, none⟩ | ⟨_, none⟩ | ⟨_, none⟩
  · cases none
  · rw [kindOf, same]
  · cases none
  · cases none
  · cases none

theorem Part.kind_ne_union (part : g.Part conflate types kind refs) : kind ≠ .union := by
  obtain ⟨r, member, kindR⟩ := part.exists_kind
  have plain := (g.mem_leaves_iff.1 (part.leaf member)).2.1
  intro same
  exact plain (same ▸ kindR)

/-- Every leaf is in one of the parts. -/
theorem exists_part (conflate : Bool) {r : Ref} (leaf : r ∈ g.leaves types) :
    ∃ kind refs, g.Part conflate types kind refs ∧ r ∈ refs := by
  obtain ⟨inside, plain, _⟩ := g.mem_leaves_iff.1 leaf
  obtain ⟨type, found⟩ := g.exists_type? inside
  have kindOf := g.kind?_of_type? found
  let kind := type.kind.subsumedBy conflate (g.hasKind (g.leaves types))
  have member : r ∈ g.contributorsTo conflate (g.leaves types) kind :=
    (g.mem_contributorsTo conflate).2 ⟨leaf, type.kind, kindOf, rfl⟩
  refine ⟨kind, _, ⟨rfl, ?_⟩, member⟩
  rw [OrderedSet.isEmpty, List.isEmpty_eq_false_iff]
  exact List.ne_nil_of_mem member

/-! ## A part by itself -/

theorem Part.leaves_eq (part : g.Part conflate types kind refs) :
    g.leaves refs.toList = refs.toList := by
  refine g.leaves_of_plain refs.nodup ?_ ?_
  · exact fun r member => (g.mem_leaves_iff.1 (part.leaf member)).1
  · exact fun r member => (g.mem_leaves_iff.1 (part.leaf member)).2.1

/-- Among the contributors to a kind alone, each contributes to that kind. -/
theorem Part.subsumedBy_eq (part : g.Part conflate types kind refs) {own : Kind}
    (subsumed : own.subsumedBy conflate (g.hasKind (g.leaves types)) = kind) :
    own.subsumedBy conflate (g.hasKind refs.toList) = kind := by
  rw [← subsumed]
  refine Kind.subsumedBy_of_fewer ?_ ?_
  · intro other present
    obtain ⟨r, member, kindR⟩ := g.hasKind_iff.1 present
    exact g.hasKind_iff.2 ⟨r, part.leaf member, kindR⟩
  · rw [subsumed]
    exact g.hasKind_iff.2 part.exists_kind

theorem Part.toList_eq (part : g.Part conflate types kind refs) :
    refs.toList = kind.startingWith.flatMap fun own =>
      if own.subsumedBy conflate (g.hasKind (g.leaves types)) = kind
      then g.ofKind (g.leaves types) own else [] := by
  have listed : refs.toList = firsts _ := congrArg OrderedSet.toList part.eq
  rw [listed]
  refine firsts_of_nodup (List.nodup_flatMap.2 ⟨?_, ?_⟩)
  · intro own _
    split
    · exact (g.nodup_leaves types).filter _
    · exact List.nodup_nil
  · refine List.Pairwise.imp ?_ kind.nodup_startingWith
    intro own other different r first second
    beta_reduce at first second
    split at first
    · split at second
      · have same := (g.mem_ofKind.1 first).2.symm.trans (g.mem_ofKind.1 second).2
        exact different (Option.some.inj same)
      · cases second
    · cases first

theorem Part.ofKind_eq (part : g.Part conflate types kind refs) (own : Kind) :
    g.ofKind refs.toList own =
      if own.subsumedBy conflate (g.hasKind (g.leaves types)) = kind
      then g.ofKind (g.leaves types) own else [] := by
  rw [part.toList_eq, ofKind, List.filter_flatMap,
    ← flatMap_single kind.nodup_startingWith (kind.mem_startingWith own) fun own =>
      if own.subsumedBy conflate (g.hasKind (g.leaves types)) = kind
      then g.ofKind (g.leaves types) own else []]
  refine List.flatMap_congr fun other _ => ?_
  by_cases same : other = own
  · subst same
    rw [if_pos rfl]
    split
    · rw [List.filter_eq_self]
      exact fun r member => decide_eq_true (g.mem_ofKind.1 member).2
    · rfl
  · rw [if_neg same]
    split
    · rw [List.filter_eq_nil_iff]
      intro r member kindR
      have found := (g.mem_ofKind.1 member).2
      rw [of_decide_eq_true kindR] at found
      exact same (Option.some.inj found).symm
    · rfl

theorem Part.contributorsTo_self (part : g.Part conflate types kind refs) :
    g.contributorsTo conflate refs.toList kind = refs := by
  apply OrderedSet.ext
  have blocks : (kind.startingWith.flatMap fun own =>
      if own.subsumedBy conflate (g.hasKind refs.toList) = kind
      then g.ofKind refs.toList own else []) = refs.toList := by
    rw [part.toList_eq]
    refine List.flatMap_congr fun own _ => ?_
    rw [← part.toList_eq, part.ofKind_eq]
    by_cases subsumed : own.subsumedBy conflate (g.hasKind (g.leaves types)) = kind
    · rw [if_pos subsumed, if_pos (part.subsumedBy_eq subsumed)]
    · simp [subsumed]
  rw [contributorsTo, blocks, OrderedSet.toList_ofList, firsts_of_nodup refs.nodup]

theorem Part.contributorsTo_other (part : g.Part conflate types kind refs) {other : Kind}
    (different : other ≠ kind) :
    (g.contributorsTo conflate refs.toList other).isEmpty = true := by
  rw [OrderedSet.isEmpty, List.isEmpty_iff, List.eq_nil_iff_forall_not_mem]
  intro r member
  obtain ⟨listed, own, kindR, subsumed⟩ := (g.mem_contributorsTo conflate).1 member
  obtain ⟨_, own', kindR', subsumed'⟩ := part.mem_iff.1 listed
  rw [kindR] at kindR'
  cases kindR'
  exact different (subsumed ▸ part.subsumedBy_eq subsumed')

/-- The contributors to one kind have that kind as their only part. -/
theorem Part.contributors_eq (part : g.Part conflate types kind refs) :
    g.contributors conflate refs.toList = [(kind, refs)] := by
  simp only [contributors, part.leaves_eq]
  rw [List.filter_map, filter_eq_singleton Kind.nodup_all (Kind.mem_all kind)]
  · rw [List.map_singleton, part.contributorsTo_self]
  · intro other _
    simp only [Function.comp_apply, Bool.not_eq_true']
    constructor
    · intro nonempty
      by_contra different
      rw [part.contributorsTo_other different] at nonempty
      cases nonempty
    · rintro rfl
      rw [part.contributorsTo_self]
      exact part.nonempty

end Parts

end Graph

end SchemaGraph
