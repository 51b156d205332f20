import SchemaGraph.Merge.Contributors
/-!
# Merge.Folding -- sorting types by kind in a table

The contributors to each kind, as a program finds them. A walk takes the unions apart and puts every other
type that it enters into the set of its own kind; then whole sets are moved, one after the other, to kinds
that subsume theirs. Any takes every set, and nothing is moved after that.
-/

namespace SchemaGraph

set_option autoImplicit false

/-- A set of types for each kind. -/
abbrev KindTable := Kind → OrderedSet Ref

namespace KindTable

/-- The table without types. -/
def empty : KindTable := fun _ => .empty

variable (table : KindTable)

/-- Gives a kind its set, in place of the one that it had. -/
def set (kind : Kind) (refs : OrderedSet Ref) : KindTable :=
  fun other => if other = kind then refs else table other

/-- Puts a type behind the others of a kind. -/
def put (kind : Kind) (r : Ref) : KindTable := table.set kind ((table kind).insert r)

/-- Takes the types of one kind and puts them behind those of another one. -/
def absorb (source target : Kind) : KindTable :=
  let emptied := table.set source .empty
  emptied.set target ((table source).toList.foldl .insert (emptied target))

/-- The same, if there are types of the other kind. -/
def subsume (source target : Kind) : KindTable :=
  if (table target).isEmpty then table else table.absorb source target

/-- Folds the kinds that others subsume. -/
def fold (conflate : Bool) : KindTable :=
  if (table .any).isEmpty then
    let strings := table.subsume .enum .string
    let numbers := if conflate then strings.subsume .integer .double else strings
    numbers.subsume .record .map
  else (Kind.all.filter fun kind => kind ≠ .any).foldl (fun others kind => others.absorb kind .any) table

end KindTable

namespace Graph

variable (g : Graph)

/-- Puts the types that are entered from the pending ones into the sets of their kinds, and goes on to the
members of a union. Only unvisited types are entered. -/
def sortInto (table : KindTable) (unvisited pending : List Ref) : KindTable :=
  match pending with
  | [] => table
  | r :: rest =>
    if r ∈ unvisited then
      match g.type? r with
      | some (.union members) => sortInto table (unvisited.erase r) (members.toList ++ rest)
      | some type => sortInto (table.put type.kind r) (unvisited.erase r) rest
      | none => sortInto table (unvisited.erase r) rest
    else sortInto table unvisited rest
termination_by (unvisited.length, pending.length)
decreasing_by
  all_goals first
    | exact Prod.Lex.right _ (Nat.lt_succ_self _)
    | exact Prod.Lex.left _ _ (by
        have := List.length_erase_of_mem ‹r ∈ unvisited›
        have := List.length_pos_of_mem ‹r ∈ unvisited›
        omega)

/-- The contributors to every kind: the given types, unions taken apart, sorted and folded. -/
def sortByKind (conflate : Bool) (types : List Ref) : KindTable :=
  (g.sortInto .empty g.refs types).fold conflate

end Graph

end SchemaGraph
