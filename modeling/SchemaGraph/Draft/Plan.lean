import SchemaGraph.Graph.Basic
/-!
# Draft.Plan -- which types are replaced together

A plan names groups of types of a graph; each group becomes one new type. Groups are not empty,
their members are types of the graph, and no type is a member twice.

* `Plan.ofGroups?` makes a plan or names the first fault of the groups, in order.
-/

namespace SchemaGraph

set_option autoImplicit false

/-- Groups of types of a graph, to be replaced. -/
structure Plan where
  source : Graph
  groups : List (List Ref)
  nonempty : ∀ group ∈ groups, group ≠ []
  members_lt : ∀ group ∈ groups, ∀ r ∈ group, r < source.size
  disjoint : groups.flatten.Nodup

/-- The first fault of the members of a group, given the members before them. -/
def memberFault? (size : Nat) (seen : List Ref) : List Ref → Option GraphFault
  | [] => none
  | r :: rest =>
    if size ≤ r then some (.unknownMember r)
    else if r ∈ seen then some (.sharedMember r)
    else memberFault? size (seen ++ [r]) rest

/-- The first fault of the groups, given the index of the first and the members before it. -/
def groupsFault? (size : Nat) (index : Nat) (seen : List Ref) : List (List Ref) → Option GraphFault
  | [] => none
  | group :: rest =>
    if group = [] then some (.emptyGroup index)
    else
      match memberFault? size seen group with
      | some fault => some fault
      | none => groupsFault? size (index + 1) (seen ++ group) rest

theorem memberFault?_eq_none {size : Nat} {seen group : List Ref} (distinct : seen.Nodup)
    (clean : memberFault? size seen group = none) :
    (∀ r ∈ group, r < size) ∧ (seen ++ group).Nodup := by
  induction group generalizing seen with
  | nil => simpa using distinct
  | cons r rest ih =>
    rw [memberFault?] at clean
    split at clean
    · cases clean
    · rename_i inside
      split at clean
      · cases clean
      · rename_i fresh
        have longer : (seen ++ [r]).Nodup := by
          rw [List.nodup_append]
          refine ⟨distinct, by simp, ?_⟩
          intro a old b new same
          rw [List.mem_singleton.1 new] at same
          exact fresh (same ▸ old)
        obtain ⟨later, all⟩ := ih longer clean
        refine ⟨?_, by simpa using all⟩
        intro s member
        rcases List.mem_cons.1 member with rfl | member
        · exact Nat.lt_of_not_le inside
        · exact later s member

theorem groupsFault?_eq_none {size index : Nat} {seen : List Ref} {groups : List (List Ref)}
    (distinct : seen.Nodup) (clean : groupsFault? size index seen groups = none) :
    (∀ group ∈ groups, group ≠ []) ∧ (∀ group ∈ groups, ∀ r ∈ group, r < size) ∧
      (seen ++ groups.flatten).Nodup := by
  induction groups generalizing index seen with
  | nil => simpa using distinct
  | cons group rest ih =>
    rw [groupsFault?] at clean
    split at clean
    · cases clean
    · rename_i nonempty
      split at clean
      · cases clean
      · rename_i members
        obtain ⟨inside, longer⟩ := memberFault?_eq_none distinct members
        obtain ⟨laterNonempty, laterInside, all⟩ := ih longer clean
        refine ⟨?_, ?_, by simpa using all⟩
        · intro other member
          rcases List.mem_cons.1 member with rfl | member
          · exact nonempty
          · exact laterNonempty other member
        · intro other member
          rcases List.mem_cons.1 member with rfl | member
          · exact inside
          · exact laterInside other member

namespace Plan

/-- The plan of the groups, or their first fault. -/
def ofGroups? (source : Graph) (groups : List (List Ref)) : Except GraphFault Plan :=
  match clean : groupsFault? source.size 0 [] groups with
  | some fault => .error fault
  | none =>
    have sound := groupsFault?_eq_none List.nodup_nil clean
    .ok ⟨source, groups, sound.1, sound.2.1, by simpa using sound.2.2⟩

/-- The index of the group that a type belongs to. -/
def groupOf? (plan : Plan) (r : Ref) : Option Nat :=
  plan.groups.findIdx? fun group => decide (r ∈ group)

/-- The index of the group that all the types belong to. -/
def commonGroup? (plan : Plan) : List Ref → Option Nat
  | [] => none
  | first :: rest =>
    match plan.groupOf? first with
    | none => none
    | some group =>
      if rest.all fun r => plan.groupOf? r = some group then some group else none

end Plan

end SchemaGraph
