import SchemaGraph.Attribute.Bag
import SchemaGraph.Ordered.Map
/-!
# Attribute.Policy -- combining bags of attributes

When types merge, each kind of attribute goes through the policy registered for it. A policy
sees one entry for each bag, with nothing where the bag lacks the attribute, and may drop the
attribute. Kinds without a policy are dropped. A bag that is combined with no other stays as it
is.

* `Policy.union` gathers the items of all values, each once, in the order of their first
  occurrence.
* `Policy.agreement` keeps a value that all bags share.
-/

namespace SchemaGraph

set_option autoImplicit false

/-- How the values of one kind of attribute combine. -/
abbrev Policy := List (Option Value) → Option Value

/-- The values without repetitions, each at the place of its first occurrence. -/
def distinctValues : List Value → List Value
  | [] => []
  | x :: xs => x :: (distinctValues xs).filter fun y => ¬ x.Same y

namespace Policy

/-- The items of all values, flattening arrays by one level; nothing if there is no item. -/
def union : Policy := fun values =>
  match distinctValues (values.flatMap fun value => (value.map Value.asItems).getD []) with
  | [] => none
  | items => some (.array items)

/-- The value, if every bag has the same. -/
def agreement : Policy
  | some first :: rest =>
    if rest.all fun value => value.any fun v => decide (v.Same first) then some first else none
  | _ => none

end Policy

/-- The policies of the kinds of attributes. -/
structure Registry where
  policies : OrderedMap String Policy

namespace Registry

/-- The registry without policies. -/
def empty : Registry := ⟨.empty⟩

instance : Inhabited Registry := ⟨empty⟩

def policy? (registry : Registry) (kind : String) : Option Policy := registry.policies.get? kind

/-- Registers a policy, in place of any that the kind had. -/
def register (registry : Registry) (kind : String) (policy : Policy) : Registry :=
  ⟨registry.policies.insert kind policy⟩

/-- The policies of the standard kinds. -/
def standard : Registry :=
  empty
    |>.register AttributeKind.names Policy.union
    |>.register AttributeKind.description Policy.union
    |>.register AttributeKind.accessorNames Policy.agreement
    |>.register AttributeKind.format Policy.agreement

/-- The kinds that occur in some bag, by name. -/
def kindsOf (bags : List Bag) : List String :=
  firsts (sorted (fun a b => decide (a ≤ b)) (bags.flatMap Bag.kinds))

/-- The value that a kind gets from the combined bags. -/
def combineKind (registry : Registry) (bags : List Bag) (kind : String) : Option Value := do
  let policy ← registry.policy? kind
  policy (bags.map fun bag => bag.get? kind)

/-- Combines several bags into one. -/
def combine (registry : Registry) : List Bag → Bag
  | [] => .empty
  | [bag] => bag
  | bags =>
    (kindsOf bags).foldl
      (fun combined kind =>
        match registry.combineKind bags kind with
        | some value => combined.insert kind value
        | none => combined)
      .empty

/-- The kinds that are dropped for want of a policy when the bags combine. -/
def dropped (registry : Registry) : List Bag → List String
  | [] => []
  | [_] => []
  | bags => (kindsOf bags).filter fun kind => (registry.policy? kind).isNone

end Registry

end SchemaGraph
