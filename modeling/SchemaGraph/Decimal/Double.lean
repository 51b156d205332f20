/-!
# Decimal.Double -- binary64 numbers in exact arithmetic

A finite binary64 number is its sign and its exponent and fraction bits, read as one natural
number, the magnitude. Magnitudes increase with the value they stand for, and every value is a
whole multiple of the least positive one, `2 ^ -1074`; `units` counts how many. So rounding,
scaling by powers of ten and comparison are all done on natural numbers.

* `nearest`: the magnitude closest to a quotient of naturals, the even one of two at the same
  distance.
* `Double.ofScaled`: a decimal significand times a power of ten, in the two roundings of a
  reader that holds the significand and the power as binary64 numbers.
-/

namespace SchemaGraph

set_option autoImplicit false

/-- A quotient rounded to the nearest natural number, a half to the even one. -/
def roundDiv (num den : Nat) : Nat :=
  let quotient := num / den
  let twice := 2 * (num % den)
  if twice < den ∨ (twice = den ∧ quotient % 2 = 0) then quotient else quotient + 1

namespace Magnitude

/-- The least magnitude that stands for no finite number. -/
def infinite : Nat := 2047 * Nat.pow 2 52

/-- The number of least positive values that make up the number. -/
def units (magnitude : Nat) : Nat :=
  if magnitude < Nat.pow 2 52 then magnitude
  else
    (Nat.pow 2 52 + magnitude % Nat.pow 2 52) * Nat.pow 2 (magnitude / Nat.pow 2 52 - 1)

/-- How many least positive values make one. -/
def one : Nat := Nat.pow 2 1074

/-- The magnitude nearest to a quotient; at least `infinite` if the quotient is too large. -/
def nearest (num den : Nat) : Nat :=
  let scaled := num * one
  let shift := Nat.log2 (scaled / den) - 52
  roundDiv scaled (den * Nat.pow 2 shift) + shift * Nat.pow 2 52

/-- The magnitude nearest to a power of ten. -/
def tenPower (exponent : Nat) : Nat := nearest (Nat.pow 10 exponent) 1

/-- The product with a power of ten. -/
def timesTenPower (magnitude exponent : Nat) : Nat :=
  nearest (units magnitude * units (tenPower exponent)) (one * one)

/-- The quotient by a power of ten. -/
def overTenPower (magnitude exponent : Nat) : Nat :=
  nearest (units magnitude) (units (tenPower exponent))

/-- The greatest exponent whose power of ten is finite. -/
def greatestTenPower : Nat := 308

/-- The quotient by a power of ten, taken in steps of the greatest finite power. -/
def scaleDown (magnitude exponent : Nat) : Nat :=
  if exponent ≤ greatestTenPower then overTenPower magnitude exponent
  else if magnitude = 0 then 0
  else scaleDown (overTenPower magnitude greatestTenPower) (exponent - greatestTenPower)
termination_by exponent
decreasing_by simp [greatestTenPower] at *; omega

/-- The product with a power of ten, `infinite` past the greatest finite power. -/
def scaleUp (magnitude exponent : Nat) : Nat :=
  if exponent ≤ greatestTenPower then timesTenPower magnitude exponent
  else if magnitude = 0 then 0
  else infinite

end Magnitude

/-- A finite binary64 number. -/
structure Double where
  negative : Bool
  /-- The exponent and fraction bits. -/
  magnitude : Nat
  finite : magnitude < Magnitude.infinite
deriving DecidableEq, Repr

namespace Double

def zero (negative : Bool) : Double := ⟨negative, 0, by decide⟩

/-- The number with the sign and magnitude, unless it is too large. -/
def ofMagnitude? (negative : Bool) (magnitude : Nat) : Option Double :=
  if finite : magnitude < Magnitude.infinite then some ⟨negative, magnitude, finite⟩ else none

/-- The number `± significand · 10 ^ exponent`, unless it is too large. -/
def ofScaled (negative : Bool) (significand : Nat) (exponent : Int) : Option Double :=
  let leading := Magnitude.nearest significand 1
  ofMagnitude? negative <|
    if 0 ≤ exponent then Magnitude.scaleUp leading exponent.toNat
    else Magnitude.scaleDown leading (-exponent).toNat

/-- The number with the sign of zero forgotten: the two zeros count as one number. -/
def unsignedZero (d : Double) : Double := if d.magnitude = 0 then zero false else d

end Double

end SchemaGraph
