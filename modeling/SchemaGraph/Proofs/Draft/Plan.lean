import SchemaGraph.Draft.Plan
/-!
# Proofs.Draft.Plan -- which group a type belongs to

Groups are disjoint, so membership decides the group of a type (`Plan.groupOf?_eq_some_iff`), and a
set of types has a group in common when all its elements are members of that group
(`Plan.commonGroup?_eq_some_iff`). Groups with members of the graph and without repetitions make a
plan (`Plan.ofGroups?_eq_ok`).
-/

namespace SchemaGraph

set_option autoImplicit false

theorem memberFault?_eq_none_of {size : Nat} {seen group : List Ref}
    (inside : ∀ r ∈ group, r < size) (distinct : (seen ++ group).Nodup) :
    memberFault? size seen group = none := by
  induction group generalizing seen with
  | nil => rfl
  | cons r rest ih =>
    have fresh : r ∉ seen := by
      intro old
      exact (List.nodup_append.1 distinct).2.2 r old r List.mem_cons_self rfl
    rw [memberFault?, if_neg (Nat.not_le.2 (inside r List.mem_cons_self)), if_neg fresh]
    refine ih (fun s later => inside s (List.mem_cons_of_mem _ later)) ?_
    rw [List.append_assoc]
    exact distinct

theorem groupsFault?_eq_none_of {size index : Nat} {seen : List Ref} {groups : List (List Ref)}
    (nonempty : ∀ group ∈ groups, group ≠ []) (inside : ∀ group ∈ groups, ∀ r ∈ group, r < size)
    (distinct : (seen ++ groups.flatten).Nodup) :
    groupsFault? size index seen groups = none := by
  induction groups generalizing index seen with
  | nil => rfl
  | cons group rest ih =>
    rw [List.flatten_cons, ← List.append_assoc] at distinct
    have members := memberFault?_eq_none_of (inside group List.mem_cons_self)
      (List.nodup_append.1 distinct).1
    rw [groupsFault?, if_neg (nonempty group List.mem_cons_self), members]
    exact ih (fun other later => nonempty other (List.mem_cons_of_mem _ later))
      (fun other later => inside other (List.mem_cons_of_mem _ later)) distinct

namespace Plan

/-- Disjoint groups of types of the graph make a plan. -/
theorem ofGroups?_eq_ok {source : Graph} {groups : List (List Ref)}
    (nonempty : ∀ group ∈ groups, group ≠ [])
    (inside : ∀ group ∈ groups, ∀ r ∈ group, r < source.size) (distinct : groups.flatten.Nodup) :
    ofGroups? source groups = .ok ⟨source, groups, nonempty, inside, distinct⟩ := by
  have clean : groupsFault? source.size 0 [] groups = none :=
    groupsFault?_eq_none_of nonempty inside distinct
  unfold ofGroups?
  split
  · rename_i fault found
    rw [clean] at found
    cases found
  · rfl

theorem eq_of_ofGroups? {source : Graph} {groups : List (List Ref)} {plan : Plan}
    (planned : ofGroups? source groups = .ok plan) : plan.source = source ∧ plan.groups = groups := by
  unfold ofGroups? at planned
  split at planned
  · cases planned
  · cases planned
    exact ⟨rfl, rfl⟩

variable {plan : Plan}

theorem eq_of_mem_groups {first second : Nat} {group other : List Ref} {r : Ref}
    (one : plan.groups[first]? = some group) (two : plan.groups[second]? = some other)
    (here : r ∈ group) (there : r ∈ other) : first = second := by
  obtain ⟨firstLt, rfl⟩ := List.getElem?_eq_some_iff.1 one
  obtain ⟨secondLt, rfl⟩ := List.getElem?_eq_some_iff.1 two
  have apart := (List.pairwise_flatten.1 plan.disjoint).2
  rw [List.pairwise_iff_getElem] at apart
  rcases Nat.lt_trichotomy first second with less | same | more
  · exact absurd rfl (apart first second firstLt secondLt less r here r there)
  · exact same
  · exact absurd rfl (apart second first secondLt firstLt more r there r here)

/-- The group of a type is the one that lists it. -/
theorem groupOf?_eq_some_iff {r : Ref} {index : Nat} :
    plan.groupOf? r = some index ↔ ∃ group, plan.groups[index]? = some group ∧ r ∈ group := by
  have sound : ∀ {i : Nat}, plan.groupOf? r = some i →
      ∃ group, plan.groups[i]? = some group ∧ r ∈ group := by
    intro i found
    obtain ⟨bound, holds, _⟩ := List.findIdx?_eq_some_iff_getElem.1 found
    exact ⟨plan.groups[i], List.getElem?_eq_getElem bound, of_decide_eq_true holds⟩
  constructor
  · exact sound
  · rintro ⟨group, listed, member⟩
    cases found : plan.groupOf? r with
    | none =>
      have absent := List.findIdx?_eq_none_iff.1 found group (List.mem_of_getElem? listed)
      exact absurd member (of_decide_eq_false absent)
    | some other =>
      obtain ⟨there, listedThere, memberThere⟩ := sound found
      rw [eq_of_mem_groups listedThere listed memberThere member]

theorem groupOf?_lt {r : Ref} {index : Nat} (found : plan.groupOf? r = some index) :
    index < plan.groups.length := by
  obtain ⟨group, listed, _⟩ := groupOf?_eq_some_iff.1 found
  exact (List.getElem?_eq_some_iff.1 listed).1

/-- The types of a set have a group in common when each belongs to it, and there is one. -/
theorem commonGroup?_eq_some_iff {types : List Ref} {index : Nat} :
    plan.commonGroup? types = some index ↔
      types ≠ [] ∧ ∀ r ∈ types, plan.groupOf? r = some index := by
  cases types with
  | nil => simp [commonGroup?]
  | cons first rest =>
    rw [commonGroup?]
    cases found : plan.groupOf? first with
    | none => simp [found]
    | some group =>
      by_cases same : (rest.all fun r => decide (plan.groupOf? r = some group)) = true
      · have all : ∀ r ∈ rest, plan.groupOf? r = some group := by simpa using same
        simp only [same, if_true, Option.some.injEq, ne_eq, reduceCtorEq, not_false_eq_true,
          List.forall_mem_cons, found, true_and]
        constructor
        · rintro rfl
          exact ⟨rfl, all⟩
        · exact fun both => both.1
      · simp only [same, Bool.false_eq_true, if_false, reduceCtorEq, false_iff, not_and]
        intro _ holds
        have here : group = index := Option.some.inj (found.symm.trans (holds first List.mem_cons_self))
        refine same (List.all_eq_true.2 fun r later => decide_eq_true ?_)
        rw [holds r (List.mem_cons_of_mem _ later), here]

theorem commonGroup?_lt {types : List Ref} {index : Nat}
    (found : plan.commonGroup? types = some index) : index < plan.groups.length := by
  obtain ⟨nonempty, all⟩ := commonGroup?_eq_some_iff.1 found
  obtain ⟨r, member⟩ := List.exists_mem_of_ne_nil types nonempty
  exact groupOf?_lt (all r member)

/-- A single type has its own group in common with itself. -/
theorem commonGroup?_singleton (r : Ref) : plan.commonGroup? [r] = plan.groupOf? r := by
  rw [commonGroup?]
  cases plan.groupOf? r <;> rfl

end Plan

end SchemaGraph
