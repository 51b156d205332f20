import Mathlib.Data.List.Perm.Basic
import SchemaGraph.Attribute.Policy
/-!
# Proofs.Attribute.Stages -- attributes combined in stages

Types merge over several rounds, so their attributes are combined in stages: bags into bags, and those
into one. The outcome is that of combining all bags at once (`Registry.combine_in_stages`), for every
kind for itself: `Policy.within` is what becomes of the values of one kind, where a single bag keeps
its value whatever the policy.

* `Policy.Staged`: what a policy has to meet for this.
* `Policy.staged_union`: an array of distinct items contributes its items to the next stage, and items
  that were dropped before would be dropped there.
* `Policy.staged_agreement`: what disagrees within a stage is absent from the next, where it disagrees.
-/

namespace SchemaGraph

set_option autoImplicit false

/-! ## Bags seen by look-up -/

section Entries

variable {β : Type} {xs ys : List (String × β)}

theorem Increasing.lookupKey_eq_some_iff (ordered : Increasing xs) {k : String} {v : β} :
    lookupKey k xs = some v ↔ (k, v) ∈ xs := by
  induction xs with
  | nil => simp [lookupKey]
  | cons entry rest ih =>
    obtain ⟨j, w⟩ := entry
    obtain ⟨before, later⟩ := increasing_cons.1 ordered
    rw [lookupKey, List.mem_cons, Prod.mk.injEq]
    by_cases here : j = k
    · subst here
      have absent : (j, v) ∉ rest := fun listed =>
        String.lt_irrefl j (before j (List.mem_map.2 ⟨_, listed, rfl⟩))
      simp [absent, eq_comm]
    · have other : ¬ k = j := fun same => here same.symm
      simp [here, other, ih later]

/-- Sorted entries with the same look-ups are the same. -/
theorem Increasing.ext (ordered : Increasing xs) (ordered' : Increasing ys)
    (same : ∀ k, lookupKey k xs = lookupKey k ys) : xs = ys := by
  have distinct : ∀ {zs : List (String × β)}, Increasing zs → zs.Nodup := fun sorted =>
    sorted.imp fun {a b} less => by
      rintro rfl
      exact String.lt_irrefl a.1 less
  have perm : xs.Perm ys := by
    refine (List.perm_ext_iff_of_nodup (distinct ordered) (distinct ordered')).2 ?_
    rintro ⟨k, v⟩
    rw [← ordered.lookupKey_eq_some_iff, same, ordered'.lookupKey_eq_some_iff]
  refine perm.eq_of_pairwise (fun a b _ _ less more => ?_) ordered ordered'
  exact absurd (String.lt_trans less more) (String.lt_irrefl a.1)

end Entries

theorem Bag.ext_get? {one other : Bag} (same : ∀ kind, one.get? kind = other.get? kind) :
    one = other := by
  have entries := one.increasing.ext other.increasing same
  cases one
  cases other
  cases entries
  rfl

theorem Bag.mem_kinds_iff {bag : Bag} {kind : String} : kind ∈ bag.kinds ↔ bag.get? kind ≠ none := by
  rw [Option.ne_none_iff_exists']
  constructor
  · intro listed
    obtain ⟨⟨k, value⟩, member, rfl⟩ := List.mem_map.1 listed
    exact ⟨value, bag.increasing.lookupKey_eq_some_iff.2 member⟩
  · rintro ⟨value, found⟩
    exact List.mem_map.2 ⟨_, bag.increasing.lookupKey_eq_some_iff.1 found, rfl⟩

/-- Several lists do not concatenate to one item if none of them is empty. -/
theorem flatten_length_ne_one {α : Type} {parts : List (List α)} (nonempty : ∀ part ∈ parts, part ≠ [])
    (several : parts.length ≠ 1) : parts.flatten.length ≠ 1 := by
  match parts with
  | [] => nofun
  | [part] => exact absurd rfl several
  | part :: next :: rest =>
    have first := List.length_pos_iff.2 (nonempty part (by simp))
    have second := List.length_pos_iff.2 (nonempty next (by simp))
    simp only [List.flatten_cons, List.length_append]
    omega

/-! ## Distinct values -/

section Distinct

/-- No value of the list is the same as the given one. -/
def Apart (xs : List Value) (y : Value) : Prop := ∀ x ∈ xs, ¬ x.Same y

instance (xs : List Value) (y : Value) : Decidable (Apart xs y) :=
  inferInstanceAs (Decidable (∀ x ∈ xs, ¬ x.Same y))

/-- Dropping repetitions leaves nothing apart that was not. -/
theorem apart_distinctValues {xs : List Value} {y : Value} :
    Apart (distinctValues xs) y ↔ Apart xs y := by
  induction xs with
  | nil => rfl
  | cons x xs ih =>
    refine List.forall_mem_cons.trans (Iff.trans ?_ List.forall_mem_cons.symm)
    refine and_congr_right fun other => Iff.trans ?_ ih
    constructor
    · intro apart z listed same
      by_cases repeated : x.Same z
      · exact other (repeated.trans same)
      · exact apart z (List.mem_filter.2 ⟨listed, decide_eq_true repeated⟩) same
    · exact fun apart z listed => apart z (List.mem_filter.1 listed).1

theorem distinctValues_append (xs ys : List Value) :
    distinctValues (xs ++ ys) = distinctValues xs ++ (distinctValues ys).filter (Apart xs ·) := by
  induction xs with
  | nil => simp [distinctValues, Apart]
  | cons x xs ih =>
    rw [List.cons_append, distinctValues, distinctValues, ih, List.cons_append, List.filter_append,
      List.filter_filter]
    congr 2
    refine List.filter_congr fun y _ => ?_
    rw [← Bool.decide_and, decide_eq_decide]
    exact (List.forall_mem_cons (p := fun z : Value => ¬ z.Same y)).symm

/-- What is distinct stays as it is. -/
theorem distinctValues_distinctValues (xs : List Value) :
    distinctValues (distinctValues xs) = distinctValues xs := by
  have kept : ∀ {ys : List Value}, ys.Pairwise (fun x y => ¬ x.Same y) → distinctValues ys = ys := by
    intro ys distinct
    induction distinct with
    | nil => rfl
    | cons apart _ ih =>
      rw [distinctValues, ih, List.filter_eq_self.2 fun y listed => decide_eq_true (apart y listed)]
  refine kept ?_
  induction xs with
  | nil => exact .nil
  | cons x xs ih =>
    exact .cons (fun y listed => of_decide_eq_true (List.mem_filter.1 listed).2) (ih.filter _)

/-- Dropping repetitions early changes nothing. -/
theorem distinctValues_flatMap {α : Type} {f g : α → List Value} {xs : List α}
    (same : ∀ x ∈ xs, distinctValues (f x) = distinctValues (g x)) :
    distinctValues (xs.flatMap f) = distinctValues (xs.flatMap g) := by
  induction xs with
  | nil => rfl
  | cons x rest ih =>
    have here := same x List.mem_cons_self
    have later := ih fun y listed => same y (List.mem_cons_of_mem _ listed)
    rw [List.flatMap_cons, List.flatMap_cons, distinctValues_append, distinctValues_append, here, later]
    congr 1
    refine List.filter_congr fun y _ => ?_
    rw [decide_eq_decide, ← apart_distinctValues, here, apart_distinctValues]

end Distinct

/-! ## Policies -/

namespace Policy

variable {policy : Policy}

/-- What becomes of the values of one kind: a single one stays as it is. -/
def within (policy : Policy) : List (Option Value) → Option Value
  | [value] => value
  | values => policy values

/-- Combining in stages is combining at once, and nothing comes of nothing. -/
structure Staged (policy : Policy) : Prop where
  absent : ∀ values : List (Option Value), (∀ value ∈ values, value = none) → policy values = none
  stages : ∀ parts : List (List (Option Value)), (∀ part ∈ parts, part ≠ []) →
    policy (parts.map policy.within) = policy parts.flatten

/-- The items that a value contributes to a union. -/
def itemsOf (value : Option Value) : List Value := (value.map Value.asItems).getD []

theorem union_eq (values : List (Option Value)) : union values =
    if distinctValues (values.flatMap itemsOf) = [] then none
    else some (.array (distinctValues (values.flatMap itemsOf))) := by
  have items : (values.flatMap fun value => (value.map Value.asItems).getD []) =
      values.flatMap itemsOf := rfl
  rw [union, items]
  split
  · rename_i nothing
    rw [if_pos nothing]
  · rename_i gathered something
    rw [if_neg something]

/-- A union contributes its items to the next one. -/
theorem itemsOf_union (values : List (Option Value)) :
    itemsOf (union values) = distinctValues (values.flatMap itemsOf) := by
  rw [union_eq]
  split
  · rename_i nothing
    rw [nothing]
    rfl
  · rfl

theorem staged_union : Staged union where
  absent values absent := by
    have noItems : values.flatMap itemsOf = [] := by
      rw [List.flatMap_eq_nil_iff]
      intro value listed
      rw [absent value listed]
      rfl
    rw [union_eq, noItems]
    rfl
  stages parts _ := by
    have each : ∀ part ∈ parts,
        distinctValues (itemsOf (union.within part)) = distinctValues (part.flatMap itemsOf) := by
      intro part _
      rw [within.eq_def]
      split
      · simp
      · rw [itemsOf_union, distinctValues_distinctValues]
    have items : distinctValues ((parts.map union.within).flatMap itemsOf) =
        distinctValues (parts.flatten.flatMap itemsOf) := by
      rw [List.flatMap_map, ← List.flatMap_id, List.flatMap_assoc]
      exact distinctValues_flatMap each
    rw [union_eq, union_eq, items]

/-- The values agree on a value if it is the first and all others are the same. -/
theorem agreement_eq_some_iff {values : List (Option Value)} {value : Value} :
    agreement values = some value ↔
      values.head? = some (some value) ∧ ∀ other ∈ values, ∃ v, other = some v ∧ v.Same value := by
  rw [agreement.eq_def]
  split
  · rename_i first rest
    simp only [Option.ite_none_right_eq_some, List.all_eq_true, Option.any_eq_true, decide_eq_true_eq,
      List.head?_cons, List.forall_mem_cons, Option.some.injEq]
    constructor
    · rintro ⟨all, rfl⟩
      exact ⟨rfl, ⟨first, rfl, .refl first⟩, all⟩
    · rintro ⟨rfl, _, all⟩
      exact ⟨all, rfl⟩
  · rename_i noFirst
    simp only [reduceCtorEq, false_iff, not_and]
    intro head
    cases values with
    | nil => cases head
    | cons first rest =>
      cases head
      exact absurd rfl (noFirst value rest)

/-- A single value agrees with itself. -/
theorem within_agreement {values : List (Option Value)} (some_value : values ≠ []) :
    agreement.within values = agreement values := by
  rw [within.eq_def]
  split
  · rename_i single
    cases single <;> rfl
  · rfl

theorem staged_agreement : Staged agreement where
  absent values absent := by
    cases values with
    | nil => rfl
    | cons first rest =>
      rw [absent first List.mem_cons_self]
      rfl
  stages parts nonempty := by
    have single : ∀ part ∈ parts, agreement.within part = agreement part := fun part listed =>
      within_agreement (nonempty part listed)
    rw [List.map_congr_left single]
    refine Option.ext fun value => ?_
    rw [agreement_eq_some_iff, agreement_eq_some_iff, List.forall_mem_map]
    -- the first value of all is the first of the first part, and each part has a first value
    have head : ∀ value, parts.flatten.head? = some (some value) ↔
        ∃ part, parts.head? = some part ∧ part.head? = some (some value) := by
      intro value
      cases parts with
      | nil => simp
      | cons part rest =>
        obtain ⟨first, others, rfl⟩ := List.exists_cons_of_ne_nil (nonempty part List.mem_cons_self)
        simp
    rw [head, List.head?_map, Option.map_eq_some_iff]
    constructor
    · rintro ⟨⟨part, first, agreed⟩, all⟩
      refine ⟨⟨part, first, (agreement_eq_some_iff.1 agreed).1⟩, ?_⟩
      intro other listed
      obtain ⟨among, inParts, member⟩ := List.mem_flatten.1 listed
      obtain ⟨v, agreed, same⟩ := all among inParts
      obtain ⟨w, rfl, sameW⟩ := (agreement_eq_some_iff.1 agreed).2 other member
      exact ⟨w, rfl, sameW.trans same⟩
    · rintro ⟨⟨part, first, here⟩, all⟩
      have within : ∀ among ∈ parts, ∀ v, among.head? = some (some v) → v.Same value →
          agreement among = some v := by
        intro among listed v headV same
        refine agreement_eq_some_iff.2 ⟨headV, fun other member => ?_⟩
        obtain ⟨w, rfl, sameW⟩ := all other (List.mem_flatten.2 ⟨among, listed, member⟩)
        exact ⟨w, rfl, sameW.trans same.symm⟩
      refine ⟨⟨part, first, within part (List.mem_of_head? first) value here (.refl value)⟩, ?_⟩
      intro among listed
      obtain ⟨one, others, rfl⟩ := List.exists_cons_of_ne_nil (nonempty among listed)
      obtain ⟨v, rfl, same⟩ := all one (List.mem_flatten.2 ⟨_, listed, List.mem_cons_self⟩)
      exact ⟨v, within _ listed v rfl same, same⟩

end Policy

/-! ## Registries -/

namespace Registry

variable {registry : Registry}

/-- Every policy is one of those that gather items and keep what is agreed on. -/
def OfUnionAndAgreement (registry : Registry) : Prop :=
  ∀ kind policy, registry.policy? kind = some policy → policy = Policy.union ∨ policy = Policy.agreement

/-- Every policy may be applied in stages. -/
def Staged (registry : Registry) : Prop :=
  ∀ kind policy, registry.policy? kind = some policy → policy.Staged

theorem OfUnionAndAgreement.register (standard : registry.OfUnionAndAgreement) (kind : String)
    {policy : Policy} (known : policy = Policy.union ∨ policy = Policy.agreement) :
    (registry.register kind policy).OfUnionAndAgreement := by
  intro other found registered
  rw [policy?, Registry.register, OrderedMap.get?_insert] at registered
  split at registered
  · cases registered
    exact known
  · exact standard other found registered

/-- The standard kinds have such policies. -/
theorem ofUnionAndAgreement_standard : Registry.standard.OfUnionAndAgreement := by
  have noPolicies : empty.OfUnionAndAgreement := by
    intro kind policy registered
    cases registered
  exact (((noPolicies.register _ (.inl rfl)).register _ (.inl rfl)).register _ (.inr rfl)).register _ (.inr rfl)

theorem OfUnionAndAgreement.staged (standard : registry.OfUnionAndAgreement) : registry.Staged := by
  intro kind policy found
  rcases standard kind policy found with rfl | rfl
  · exact Policy.staged_union
  · exact Policy.staged_agreement

/-- What becomes of the values of one kind: a single one stays as it is, and several are dropped for want
of a policy. -/
def within (registry : Registry) (kind : String) : List (Option Value) → Option Value
  | [value] => value
  | values => (registry.policy? kind).bind fun policy => policy values

/-- Writing the values of some kinds into a bag. -/
theorem get?_foldl_insert (value? : String → Option Value) (kinds : List String) (bag : Bag)
    (kind : String) :
    (kinds.foldl
        (fun combined kind =>
          match value? kind with
          | some value => combined.insert kind value
          | none => combined)
        bag).get? kind =
      if kind ∈ kinds then (value? kind).or (bag.get? kind) else bag.get? kind := by
  induction kinds generalizing bag with
  | nil => simp
  | cons first rest ih =>
    rw [List.foldl_cons, ih]
    cases found : value? first with
    | none => by_cases here : kind = first <;> simp [here, found]
    | some value =>
      simp only [Bag.get?_insert]
      by_cases here : first = kind
      · subst here
        simp [found]
      · have other : ¬ kind = first := fun same => here same.symm
        simp [here, other]

theorem mem_kindsOf {bags : List Bag} {kind : String} :
    kind ∈ kindsOf bags ↔ ∃ bag ∈ bags, bag.get? kind ≠ none := by
  simp [kindsOf, Bag.mem_kinds_iff]

/-- Bags combine kind by kind. -/
theorem get?_combine (staged : registry.Staged) (bags : List Bag) (kind : String) :
    (registry.combine bags).get? kind = registry.within kind (bags.map fun bag => bag.get? kind) := by
  rw [combine.eq_def]
  split
  · cases found : registry.policy? kind with
    | none => simp [within, found]
    | some policy =>
      have nothing := (staged kind policy found).absent [] nofun
      simp [within, found, nothing]
  · rfl
  · rename_i several
    have many : registry.within kind (bags.map fun bag => bag.get? kind) =
        registry.combineKind bags kind := by
      rw [within.eq_def]
      split
      · rename_i value single
        obtain ⟨bag, rfl, _⟩ := List.map_eq_singleton_iff.1 single
        exact absurd rfl (several bag)
      · rfl
    refine (get?_foldl_insert (registry.combineKind bags) _ _ kind).trans ?_
    rw [many, Bag.get?_empty, Option.or_none]
    split
    · rfl
    · rename_i absent
      have nowhere : ∀ value ∈ bags.map (fun bag => bag.get? kind), value = none := by
        intro value listed
        obtain ⟨bag, member, rfl⟩ := List.mem_map.1 listed
        by_contra present
        exact absent (mem_kindsOf.2 ⟨bag, member, present⟩)
      cases found : registry.policy? kind with
      | none => simp [combineKind, found]
      | some policy =>
        have nothing := (staged kind policy found).absent _ nowhere
        simp [combineKind, found, nothing]

theorem within_of_length_ne_one {kind : String} {values : List (Option Value)}
    (several : values.length ≠ 1) :
    registry.within kind values = (registry.policy? kind).bind fun policy => policy values := by
  rw [within.eq_def]
  split
  · exact absurd rfl several
  · rfl

/-- The values of one kind may be combined in stages. -/
theorem within_stages (staged : registry.Staged) (kind : String) {parts : List (List (Option Value))}
    (nonempty : ∀ part ∈ parts, part ≠ []) :
    registry.within kind (parts.map (registry.within kind)) = registry.within kind parts.flatten := by
  by_cases single : parts.length = 1
  · obtain ⟨part, rfl⟩ := List.length_eq_one_iff.1 single
    simp [within]
  have flat : parts.flatten.length ≠ 1 := flatten_length_ne_one nonempty single
  rw [within_of_length_ne_one (by simpa using single), within_of_length_ne_one flat]
  cases found : registry.policy? kind with
  | none => rfl
  | some policy =>
    have each : registry.within kind = policy.within := by
      funext values
      rw [within.eq_def, Policy.within.eq_def]
      split <;> simp [found]
    rw [each]
    exact (staged kind policy found).stages parts nonempty

/-- Combining bags in stages is combining them at once. -/
theorem combine_in_stages (standard : registry.OfUnionAndAgreement) {stages : List (List Bag)}
    (nonempty : ∀ bags ∈ stages, bags ≠ []) :
    registry.combine (stages.map registry.combine) = registry.combine stages.flatten := by
  refine Bag.ext_get? fun kind => ?_
  have staged := standard.staged
  have values : ∀ bags : List Bag, (registry.combine bags).get? kind =
      registry.within kind (bags.map fun bag => bag.get? kind) := fun bags =>
    get?_combine staged bags kind
  rw [values, values, List.map_map, List.map_flatten]
  have parts : ∀ part ∈ stages.map (List.map fun bag => bag.get? kind), part ≠ [] := by
    intro part listed
    obtain ⟨bags, member, rfl⟩ := List.mem_map.1 listed
    simpa using nonempty bags member
  rw [← within_stages staged kind parts, List.map_map]
  congr 1
  exact List.map_congr_left fun bags _ => values bags

/-- Three stages: a bag alone, whose kind without a policy and repeated description survive the first
round only, a stage that agrees on a format, and one that brings another name. -/
def tiers : List (List Bag) := [
  [.ofList [("origin", .null), ("names", .string "a"), ("description", .array [.string "d", .string "d"]),
    ("format", .string "uuid")]],
  [.ofList [("names", .array [.string "b", .array [.string "a"]]), ("format", .string "uuid")],
    .ofList [("format", .string "uuid")]],
  [.ofList [("names", .string "a"), ("format", .string "uuid")],
    .ofList [("names", .array []), ("format", .string "uuid")]]]

theorem standard_combines_tiers_in_stages :
    standard.OfUnionAndAgreement ∧ (∀ bags ∈ tiers, bags ≠ []) ∧
      standard.combine (tiers.map standard.combine) = standard.combine tiers.flatten ∧
      standard.combine tiers.flatten = .ofList
        [("description", .array [.string "d"]), ("format", .string "uuid"),
          ("names", .array [.string "a", .string "b", .array [.string "a"]])] :=
  have nonempty : ∀ bags ∈ tiers, bags ≠ [] := by simp [tiers]
  ⟨ofUnionAndAgreement_standard, nonempty, combine_in_stages ofUnionAndAgreement_standard nonempty,
    by decide +kernel⟩

end Registry

end SchemaGraph
