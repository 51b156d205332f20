import SchemaGraph.Decimal.Double
import SchemaGraph.Ordered.Sorted
/-!
# Json.Value -- JSON values

Integers and binary64 numbers are different values, and an object keeps its members in the order
in which they were written. `Value.Same` is the equality that attributes are compared with: the
order of members does not matter, and zero has no sign. It is equality of canonical forms, so it
is an equivalence by construction.
-/

namespace SchemaGraph

set_option autoImplicit false

/-- A JSON value. -/
inductive Value where
  | null
  | bool (b : Bool)
  | int (n : Int)
  | double (d : Double)
  | string (s : String)
  | array (items : List Value)
  | object (fields : List (String × Value))
deriving Repr, Inhabited

namespace Value

/-! ## Decidable equality -/

mutual

/-- Whether two values are identical. -/
def identical : Value → Value → Bool
  | .null, .null => true
  | .bool a, .bool b => a == b
  | .int m, .int n => decide (m = n)
  | .double c, .double d => decide (c = d)
  | .string s, .string t => decide (s = t)
  | .array xs, .array ys => identicalItems xs ys
  | .object xs, .object ys => identicalFields xs ys
  | _, _ => false

def identicalItems : List Value → List Value → Bool
  | [], [] => true
  | x :: xs, y :: ys => identical x y && identicalItems xs ys
  | _, _ => false

def identicalFields : List (String × Value) → List (String × Value) → Bool
  | [], [] => true
  | (j, x) :: xs, (k, y) :: ys => decide (j = k) && identical x y && identicalFields xs ys
  | _, _ => false

end

mutual

theorem identical_iff (x y : Value) : identical x y = true ↔ x = y := by
  cases x <;> cases y <;> simp [identical]
  case array.array xs ys => exact identicalItems_iff xs ys
  case object.object xs ys => exact identicalFields_iff xs ys

theorem identicalItems_iff (xs ys : List Value) : identicalItems xs ys = true ↔ xs = ys := by
  cases xs with
  | nil => cases ys <;> simp [identicalItems]
  | cons x xs =>
    cases ys with
    | nil => simp [identicalItems]
    | cons y ys => simp [identicalItems, identical_iff x y, identicalItems_iff xs ys]

theorem identicalFields_iff (xs ys : List (String × Value)) :
    identicalFields xs ys = true ↔ xs = ys := by
  cases xs with
  | nil => cases ys <;> simp [identicalFields]
  | cons x xs =>
    obtain ⟨j, x⟩ := x
    cases ys with
    | nil => simp [identicalFields]
    | cons y ys =>
      obtain ⟨k, y⟩ := y
      simp [identicalFields, identical_iff x y, identicalFields_iff xs ys]

end

instance : DecidableEq Value := fun x y => decidable_of_iff _ (identical_iff x y)

/-! ## Sameness -/

mutual

/-- The value with the members of its objects in the order of their keys and zero unsigned. -/
def canonical : Value → Value
  | .null => .null
  | .bool b => .bool b
  | .int n => .int n
  | .double d => .double d.unsignedZero
  | .string s => .string s
  | .array items => .array (canonicalItems items)
  | .object fields => .object (canonicalFields fields)

def canonicalItems : List Value → List Value
  | [] => []
  | x :: xs => canonical x :: canonicalItems xs

/-- Of a key that is written twice the first member counts. -/
def canonicalFields : List (String × Value) → List (String × Value)
  | [] => []
  | (k, x) :: xs => insertKey k (canonical x) (canonicalFields xs)

end

/-- Two values are the same when they have one canonical form. -/
def Same (x y : Value) : Prop := x.canonical = y.canonical

instance (x y : Value) : Decidable (Same x y) := inferInstanceAs (Decidable (_ = _))

theorem Same.refl (x : Value) : Same x x := rfl

theorem Same.symm {x y : Value} (same : Same x y) : Same y x := Eq.symm same

theorem Same.trans {x y z : Value} (first : Same x y) (second : Same y z) : Same x z :=
  Eq.trans first second

/-! ## Parts -/

/-- The text of a string value. -/
def string? : Value → Option String
  | .string s => some s
  | _ => none

/-- The items of an array, and any other value as a single item. -/
def asItems : Value → List Value
  | .array items => items
  | value => [value]

end Value

end SchemaGraph
