import SchemaGraph.Graph.Walk
/-!
# Graph.Matching -- types of exactly the same shape

Two types match when their kinds agree and their constituents match in turn: the items of arrays,
the values of maps, the members of unions kind by kind, the properties of records name by name
with the same optionality; enumerations need the same cases. Attributes and the fixed flag do not
count. With `conflate`, integers and doubles count as one kind.

`obligations?` says what two types owe each other to match, and `matchAll` pays it off: pairs of
types that were compared before are taken to match, so the comparison ends on cyclic types. Every
step uses up a pair of types of the graph that was not yet compared, or a pending pair.
-/

namespace SchemaGraph

set_option autoImplicit false

/-! ## Counting what is left -/

/-- A narrower test that fails on a listed element which passes the wider one counts less. -/
theorem countP_lt {α : Type} {wide narrow : α → Bool} {xs : List α} {a : α}
    (narrower : ∀ b, narrow b = true → wide b = true) (listed : a ∈ xs) (passes : wide a = true)
    (fails : narrow a = false) : xs.countP narrow < xs.countP wide := by
  induction xs with
  | nil => cases listed
  | cons b rest ih =>
    have less : rest.countP narrow ≤ rest.countP wide :=
      List.countP_mono_left fun c _ => narrower c
    rw [List.countP_cons, List.countP_cons]
    rcases List.mem_cons.1 listed with here | later
    · subst here
      rw [if_pos passes, if_neg (by simp [fails])]
      omega
    · have smaller := ih later
      cases inner : narrow b with
      | true => rw [if_pos rfl, if_pos (narrower b inner)]; omega
      | false => rw [if_neg Bool.false_ne_true]; split <;> omega

/-! ## What two types owe each other -/

/-- Whether two kinds agree. -/
def kindsAgree (conflate : Bool) (a b : Kind) : Bool :=
  a = b || (conflate && a.isNumber && b.isNumber)

namespace Graph

variable (g : Graph)

/-- The last of the references that designates a type of the kind. -/
def lastOfKind? (kind : Kind) (refs : List Ref) : Option Ref :=
  refs.reverse.find? fun r => g.kind? r = some kind

/-- The reference that stands opposite a union member of the kind: one of the same kind, or of
the other kind of number if numbers count as one. -/
def counterpart? (conflate : Bool) (refs : List Ref) (kind : Kind) : Option Ref :=
  match g.lastOfKind? kind refs with
  | some r => some r
  | none =>
    if conflate then
      match kind with
      | .integer => g.lastOfKind? .double refs
      | .double => g.lastOfKind? .integer refs
      | _ => none
    else none

/-- A union member and its counterpart. -/
def memberPair? (conflate : Bool) (others : List Ref) (member : Ref) : Option (Ref × Ref) := do
  let kind ← g.kind? member
  let other ← g.counterpart? conflate others kind
  some (member, other)

end Graph

/-- The types of a property in two records, if both have it with the same optionality. -/
def propertyPair? (others : OrderedMap String Property) (entry : String × Property) :
    Option (Ref × Ref) := do
  let other ← others.get? entry.1
  if entry.2.optional = other.optional then some (entry.2.type, other.type) else none

namespace Graph

variable (g : Graph)

/-- The pairs of types that have to match for two types of agreeing kinds to match, if they can
match at all. -/
def constituentPairs? (conflate : Bool) : Ty → Ty → Option (List (Ref × Ref))
  | .array l, .array r => some [(l, r)]
  | .map l, .map r => some [(l, r)]
  | .enum l, .enum r =>
    if l.size = r.size ∧ l.toList.all (fun c => decide (c ∈ r)) then some [] else none
  | .union l, .union r =>
    if l.size = r.size then l.toList.mapM (g.memberPair? conflate r.toList) else none
  | .record l, .record r =>
    if l.size = r.size then l.properties.entries.mapM (propertyPair? r.properties) else none
  | _, _ => some []

/-- The pairs of types that have to match for two types to match, if they can match at all. -/
def obligations? (conflate : Bool) (left right : Ref) : Option (List (Ref × Ref)) := do
  let l ← g.type? left
  let r ← g.type? right
  if kindsAgree conflate l.kind r.kind then g.constituentPairs? conflate l r else none

/-! ## Paying off -/

/-- All pairs of types of the graph. -/
def pairs : List (Ref × Ref) := g.refs.flatMap fun l => g.refs.map fun r => (l, r)

theorem mem_pairs {l r : Ref} : (l, r) ∈ g.pairs ↔ l < g.size ∧ r < g.size := by
  simp [pairs, refs]

theorem lt_of_type? {r : Ref} {type : Ty} (found : g.type? r = some type) : r < g.size := by
  rw [type?, Option.map_eq_some_iff] at found
  obtain ⟨node, at_, _⟩ := found
  rw [node?, Array.getElem?_eq_some_iff] at at_
  exact at_.1

theorem mem_pairs_of_obligations? {conflate : Bool} {l r : Ref} {new : List (Ref × Ref)}
    (found : g.obligations? conflate l r = some new) : (l, r) ∈ g.pairs := by
  rw [obligations?] at found
  cases left : g.type? l with
  | none => simp [left] at found
  | some _ =>
    cases right : g.type? r with
    | none => simp [left, right] at found
    | some _ => exact g.mem_pairs.2 ⟨g.lt_of_type? left, g.lt_of_type? right⟩

end Graph

/-- The pair with the smaller reference first. -/
def orderedPair (pair : Ref × Ref) : Ref × Ref :=
  if pair.2 < pair.1 then (pair.2, pair.1) else pair

namespace Graph

variable (g : Graph)

/-- Whether all pending pairs match, given that the pairs in `done` do. -/
def matchAll (conflate : Bool) (done pending : List (Ref × Ref)) : Bool :=
  match pending with
  | [] => true
  | pair :: rest =>
    let next := orderedPair pair
    if next.1 = next.2 then matchAll conflate done rest
    else
      match _found : g.obligations? conflate next.1 next.2 with
      | none => false
      | some new =>
        if next ∈ done then matchAll conflate done rest
        else matchAll conflate (next :: done) (new ++ rest)
termination_by (g.pairs.countP (fun p => p ∉ done), pending.length)
decreasing_by
  · exact Prod.Lex.right _ (by simp)
  · exact Prod.Lex.right _ (by simp)
  · rename_i fresh
    have listed : next ∈ g.pairs := g.mem_pairs_of_obligations? _found
    refine Prod.Lex.left _ _ (countP_lt ?_ listed ?_ ?_)
    · intro b unmarked
      simp only [List.mem_cons, not_or, decide_eq_true_eq] at unmarked ⊢
      exact unmarked.2
    · simpa using fresh
    · simp [next]

/-- Whether two types of the graph have exactly the same shape. -/
def sameShape (conflate : Bool) (a b : Ref) : Bool := g.matchAll conflate [] [(a, b)]

/-- Whether two references designate the same shape: a reference always does what it does itself,
and two different ones cannot be compared unless both designate types. -/
def sameShape? (conflate : Bool) (a b : Ref) : Option Bool :=
  if a = b then some true
  else if g.has a && g.has b then some (g.sameShape conflate a b)
  else none

end Graph

end SchemaGraph
