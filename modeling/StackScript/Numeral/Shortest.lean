import StackScript.Numeral.Binary64
import StackScript.Numeral.Integer

/-! # The shortest decimal that reads back

Of all decimals that are nearer to a double than to its neighbours, a double is written with
the fewest digits; of two such decimals the nearer one is taken, and of two equally near ones
the even one. The search goes over the decimal grids of 1, 2, …, 17 digits in exact
arithmetic: 17 digits always suffice.
-/

namespace StackScript.Binary64

/-- A decimal `digits * 10 ^ exponent`. -/
structure Decimal where
  digits : Nat
  exponent : Int
  deriving DecidableEq, Repr

/-- The ratio `numerator / denominator`, with the half distances to the two neighbouring
doubles over the same denominator. -/
structure Interval where
  numerator : Nat
  below : Nat
  above : Nat
  denominator : Nat
  /-- Do the end points belong to the interval? -/
  closed : Bool
  deriving DecidableEq, Repr

/-- The reals that round to `significand * 2 ^ exponent`. The neighbour below a power of two
is only half as far away as the one above it. -/
def interval (significand : Nat) (exponent : Int) : Interval :=
  let below := if significand == hiddenBit && leastExponent < exponent then 1 else 2
  let unit := Nat.pow 2 (exponent - 2).toNat
  { numerator := 4 * significand * unit
    below := below * unit
    above := 2 * unit
    denominator := Nat.pow 2 (2 - exponent).toNat
    closed := significand % 2 == 0 }

/-- Does the interval hold `point / grid`? -/
def Interval.holds (i : Interval) (point grid : Nat) : Bool :=
  let value := point * i.denominator
  let low := (i.numerator - i.below) * grid
  let high := (i.numerator + i.above) * grid
  if i.closed then low ≤ value && value ≤ high else low < value && value < high

/-- The point of the grid with steps of `10 ^ exponent` that lies in the interval and is
nearest to its number. -/
def Interval.nearestOnGrid (i : Interval) (exponent : Int) : Option Nat :=
  let step := Nat.pow 10 exponent.toNat
  let grid := Nat.pow 10 (-exponent).toNat
  let floor := i.numerator * grid / (i.denominator * step)
  let lower := i.holds (floor * step) grid
  let upper := i.holds ((floor + 1) * step) grid
  if lower && upper then
    some (roundRatio (i.numerator * grid) (i.denominator * step))
  else if lower then some floor
  else if upper then some (floor + 1)
  else none

/-- The exponent `k` with `10 ^ (k - 1) ≤ numerator / denominator < 10 ^ k`. Every positive
double is above `10 ^ -400`, so that the shift leaves an integer part. -/
def Interval.decimalPoint (i : Interval) : Int :=
  (Numeral.ofNat (i.numerator * Nat.pow 10 400 / i.denominator)).length - (400 : Int)

/-- The first grid with a hit, from `count` digits on. -/
def Interval.search (i : Interval) (point : Int) : (fuel count : Nat) → Decimal
  | 0, count => ⟨(i.nearestOnGrid (point - count)).getD 0, point - count⟩
  | fuel + 1, count =>
      match i.nearestOnGrid (point - count) with
      | some digits => ⟨digits, point - count⟩
      | none => i.search point fuel (count + 1)

/-- The shortest decimal for the positive number `significand * 2 ^ exponent`. -/
def shortest (significand : Nat) (exponent : Int) : Decimal :=
  let i := interval significand exponent
  i.search i.decimalPoint 16 1

end StackScript.Binary64
