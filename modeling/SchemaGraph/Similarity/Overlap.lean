import SchemaGraph.Similarity.CaseSets
/-!
# Similarity.Overlap -- records that may be samples of one shape

Two records may be noisy samples of one shape when the smaller has at least three quarters of the
properties of the larger, and the types of every shared property match up to null. The smaller
record may lack some of the larger's properties and may have some of its own; how many, its fault
budget says.
-/

namespace SchemaGraph

set_option autoImplicit false

/-- Three quarters of a number of properties, rounded up. -/
def requiredOverlap (properties : Nat) : Nat := (3 * properties + 3) / 4

/-- Whether two records differ too much in size to be compared. -/
def sizesDiffer (onlySame : Bool) (m n : Nat) : Bool :=
  if onlySame then decide (m ≠ n) else decide (4 * m < 3 * n) || decide (4 * n < 3 * m)

/-- How many properties of its own the smaller record may have. -/
def faultBudget (smaller larger : Record) : Except MergeFault Nat :=
  let overlap := requiredOverlap larger.size
  if smaller.size < overlap then .error (.broken (.negativeBudget smaller.size overlap))
  else .ok (smaller.size - overlap)

/-- The names that the larger record has too, in order, if no more than the budget are missing there. The
search ends at the first name above the budget; `faults` counts those that were missing so far. -/
def sharedWithin (larger : Record) (budget : Nat) : Nat → List String → Option (List String)
  | _, [] => some []
  | faults, name :: rest =>
    if larger.properties.contains name then
      (sharedWithin larger budget faults rest).map (name :: ·)
    else if budget < faults + 1 then none
    else sharedWithin larger budget (faults + 1) rest

namespace Graph

variable (g : Graph)

/-- Whether the types of a shared property match up to null. -/
def propertyMatches (a b : Record) (name : String) : Except MergeFault Bool :=
  match a.property? name, b.property? name with
  | some p, some q =>
    let s := g.cases p.type
    let t := g.cases q.type
    .ok ((s.isEmpty && t.isEmpty) || g.caseSetsMatch s t)
  | _, _ => .error (.broken (.missingProperty name))

/-- Whether the types of all shared properties match, in order up to the first that fails. -/
def propertiesMatch (a b : Record) : List String → Except MergeFault Bool
  | [] => .ok true
  | name :: rest => do
    if ← g.propertyMatches a b name then propertiesMatch a b rest else .ok false

/-- Whether two records of the graph may be samples of one shape. -/
def canCombine (onlySame : Bool) (a b : Record) : Except MergeFault Bool :=
  if sizesDiffer onlySame a.size b.size then .ok false
  else
    let (larger, smaller) := if b.size < a.size then (a, b) else (b, a)
    do
      let budget ← faultBudget smaller larger
      match sharedWithin larger budget 0 smaller.properties.keys with
      | none => .ok false
      | some shared => g.propertiesMatch a b shared

end Graph

end SchemaGraph
