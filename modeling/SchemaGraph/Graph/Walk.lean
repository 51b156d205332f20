import SchemaGraph.Graph.Basic
/-!
# Graph.Walk -- walking through a graph

`explore` goes through references depth first and lists each one where it is first entered. It
carries the list of references that it may still enter, so it ends on every graph, cyclic or not:
each step uses up a reference or a pending one.

* `Graph.reachable`: the types that the top-level types lead to.
* `Graph.namedTypes`: those of them that get a name of their own, by kind.
* `Graph.leaves`: the types that a set stands for when unions are taken apart.
* `Graph.cases`: the leaves of one type, without null.
-/

namespace SchemaGraph

set_option autoImplicit false

/-- The references entered from the pending ones, depth first and in order, each once. Only
unvisited references are entered. -/
def explore (next : Ref → List Ref) (unvisited pending : List Ref) : List Ref :=
  match pending with
  | [] => []
  | r :: rest =>
    if r ∈ unvisited then r :: explore next (unvisited.erase r) (next r ++ rest)
    else explore next unvisited rest
termination_by (unvisited.length, pending.length)
decreasing_by
  · rename_i member
    have := List.length_erase_of_mem member
    have := List.length_pos_of_mem member
    exact Prod.Lex.left _ _ (by omega)
  · exact Prod.Lex.right _ (by simp)

theorem explore_nil (next : Ref → List Ref) (unvisited : List Ref) :
    explore next unvisited [] = [] := by rw [explore]

theorem explore_cons (next : Ref → List Ref) (unvisited : List Ref) (r : Ref) (rest : List Ref) :
    explore next unvisited (r :: rest) =
      if r ∈ unvisited then r :: explore next (unvisited.erase r) (next r ++ rest)
      else explore next unvisited rest := by rw [explore]

/-- Only unvisited references are entered. -/
theorem mem_of_mem_explore {next : Ref → List Ref} {unvisited pending : List Ref} {r : Ref}
    (entered : r ∈ explore next unvisited pending) : r ∈ unvisited := by
  fun_induction explore next unvisited pending with
  | case1 => cases entered
  | case2 unvisited s rest fresh ih =>
    rcases List.mem_cons.1 entered with rfl | later
    · exact fresh
    · exact List.mem_of_mem_erase (ih later)
  | case3 unvisited s rest known ih => exact ih entered

/-- No reference is entered twice. -/
theorem nodup_explore {next : Ref → List Ref} {unvisited pending : List Ref}
    (distinct : unvisited.Nodup) : (explore next unvisited pending).Nodup := by
  fun_induction explore next unvisited pending with
  | case1 => exact .nil
  | case2 unvisited s rest fresh ih =>
    refine List.nodup_cons.2 ⟨fun again => ?_, ih (distinct.erase s)⟩
    exact (distinct.not_mem_erase (mem_of_mem_explore again))
  | case3 unvisited s rest known ih => exact ih distinct

/-- Types that get a name of their own, by kind. -/
structure NamedTypes where
  records : List Ref
  maps : List Ref
  enums : List Ref
  unions : List Ref
deriving DecidableEq, Repr

namespace NamedTypes

/-- No types. -/
def empty : NamedTypes := ⟨[], [], [], []⟩

instance : Inhabited NamedTypes := ⟨empty⟩

/-- Lists a type behind the others of its kind. Types of kinds without names are passed over. -/
def push (named : NamedTypes) (r : Ref) : Kind → NamedTypes
  | .record => { named with records := named.records ++ [r] }
  | .map => { named with maps := named.maps ++ [r] }
  | .enum => { named with enums := named.enums ++ [r] }
  | .union => { named with unions := named.unions ++ [r] }
  | _ => named

end NamedTypes

namespace Graph

variable (g : Graph)

/-- The types reachable from the top-level types, in the order in which a depth-first search that
follows names and constituents in order first enters them. -/
def reachable : List Ref := explore g.children g.refs g.tops.values

/-- The reachable types of one kind, in the same order. -/
def reachableOf (kind : Kind) : List Ref := g.reachable.filter fun r => g.kind? r = some kind

/-- The reachable types that get a name of their own, each list in the same order. -/
def namedTypes : NamedTypes :=
  g.reachable.foldl
    (fun named r =>
      match g.kind? r with
      | some kind => named.push r kind
      | none => named)
    .empty

/-- The members of a union; a type of another kind has none. -/
def members (r : Ref) : List Ref :=
  match g.type? r with
  | some (.union members) => members.toList
  | _ => []

/-- The types that are no unions, among the given ones and the members, at any depth, of the
unions among them. Every type is listed once, in the order of a depth-first walk. -/
def leaves (types : List Ref) : List Ref :=
  (explore g.members g.refs types).filter fun r => g.kind? r ≠ some .union

theorem nodup_leaves (types : List Ref) : (g.leaves types).Nodup :=
  (nodup_explore List.nodup_range).filter _

/-- The types other than null that a value of the type may have, unions taken apart. A type that
is no union is its own single case.

Every type has cases here, as the walk enters no type twice. A recursion that asks each member for its
own cases does not end on a union that contains itself; where unions end, it finds the same ones in the
same order (`Graph.toList_cases_of_union`, `Graph.takenApart_iff`). -/
def cases (r : Ref) : OrderedSet Ref :=
  ⟨(g.leaves [r]).filter fun leaf => g.kind? leaf ≠ some .null, (g.nodup_leaves [r]).filter _⟩

end Graph

end SchemaGraph
