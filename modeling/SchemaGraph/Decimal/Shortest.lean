import SchemaGraph.Decimal.Double
/-!
# Decimal.Shortest -- the fewest digits that read back

A binary64 number stands for every real number that rounds to it. `Double.shortest` picks, of
the decimals in that interval, one with the fewest digits, of those the nearest, and of two
equally near the one that ends in an even digit. `Double.text` lays the digits out: positionally
from `0.00001` up to sixteen digits before the point, otherwise with a signed exponent.
-/

namespace SchemaGraph

set_option autoImplicit false

/-- The number `digits · 10 ^ exponent`. -/
structure ScaledDigits where
  digits : Nat
  exponent : Int
deriving DecidableEq, Repr

/-- The reals that round to a number, with the number itself, all counted in half units. -/
structure RoundingInterval where
  low : Nat
  value : Nat
  high : Nat
  /-- Whether the two ends belong to the interval. -/
  closed : Bool

namespace RoundingInterval

/-- The interval of a positive magnitude, between the halfway points to its two neighbours. -/
def ofMagnitude (magnitude : Nat) : RoundingInterval where
  low := Magnitude.units (magnitude - 1) + Magnitude.units magnitude
  value := 2 * Magnitude.units magnitude
  high := Magnitude.units magnitude + Magnitude.units (magnitude + 1)
  closed := magnitude % 2 == 0

/-- A count of half units, on the scale on which `d · 10 ^ exponent` is `d * step exponent`. -/
def scale (exponent : Int) (halfUnits : Nat) : Nat := halfUnits * Nat.pow 10 (-exponent).toNat

/-- The distance of two neighbours on the grid of multiples of `10 ^ exponent`. -/
def step (exponent : Int) : Nat := 2 * Magnitude.one * Nat.pow 10 exponent.toNat

def holds (interval : RoundingInterval) (exponent : Int) (d : Nat) : Bool :=
  let point := d * step exponent
  let low := scale exponent interval.low
  let high := scale exponent interval.high
  if interval.closed then low ≤ point && point ≤ high else low < point && point < high

/-- The multiple of `10 ^ exponent` in the interval that is nearest to the number. -/
def onGrid? (interval : RoundingInterval) (exponent : Int) : Option Nat :=
  let value := scale exponent interval.value
  let below := value / step exponent
  let above := below + 1
  match interval.holds exponent below, interval.holds exponent above with
  | false, false => none
  | true, false => some below
  | false, true => some above
  | true, true =>
    let past := value - below * step exponent
    let missing := above * step exponent - value
    if past < missing ∨ (past = missing ∧ below % 2 = 0) then some below else some above

/-- The first grid with a point in the interval, from a coarse one to ever finer ones. -/
def search (interval : RoundingInterval) : Nat → Int → ScaledDigits
  | 0, exponent => ⟨scale exponent interval.value / step exponent, exponent⟩
  | grids + 1, exponent =>
    match interval.onGrid? exponent with
    | some d => ⟨d, exponent⟩
    | none => search interval grids (exponent - 1)

/-- A grid that is at least as coarse as the leading digit of the number: the binary logarithm
counts `3.32` per decimal place, and the unit is `2 ^ -1074`. -/
def coarsest (interval : RoundingInterval) : Int :=
  ((Nat.log2 interval.value : Int) - 1074) * 30103 / 100000 + 1

end RoundingInterval

/-- The same number without a zero at the end of its digits. -/
def ScaledDigits.strip (d : ScaledDigits) : ScaledDigits :=
  if d.digits % 10 = 0 ∧ d.digits ≠ 0 then strip ⟨d.digits / 10, d.exponent + 1⟩ else d
termination_by d.digits
decreasing_by omega

/-- The shortest decimal that rounds to the number. Seventeen digits always suffice, and at most
two coarser grids are tried in vain. -/
def Double.shortest (d : Double) : ScaledDigits :=
  if d.magnitude = 0 then ⟨0, 0⟩
  else
    let interval := RoundingInterval.ofMagnitude d.magnitude
    (interval.search 20 interval.coarsest).strip

/-- An exponent with its sign: `+20`, `-7`. -/
def exponentText (exponent : Int) : String :=
  (if 0 ≤ exponent then "+" else "") ++ exponent.repr

/-- Lays digits out: `12.0`, `1.25`, `0.00125`, `1e-7`, `1.25e+20`. -/
def ScaledDigits.text (d : ScaledDigits) : String :=
  let digits := Nat.toDigits 10 d.digits
  let point : Int := digits.length + d.exponent
  let zeros (count : Int) : List Char := List.replicate count.toNat '0'
  if 0 ≤ d.exponent ∧ point ≤ 16 then
    String.ofList (digits ++ zeros d.exponent ++ ['.', '0'])
  else if 0 < point ∧ point ≤ 16 then
    String.ofList (digits.take point.toNat ++ '.' :: digits.drop point.toNat)
  else if -5 < point ∧ point ≤ 0 then
    String.ofList ('0' :: '.' :: zeros (-point) ++ digits)
  else
    let fraction := if digits.length = 1 then [] else '.' :: digits.drop 1
    String.ofList (digits.take 1 ++ fraction ++ ['e']) ++ exponentText (point - 1)

/-- The text of a number, with a sign for a negative number or zero. -/
def Double.text (d : Double) : String :=
  (if d.negative then "-" else "") ++ (if d.magnitude = 0 then "0.0" else d.shortest.text)

end SchemaGraph
