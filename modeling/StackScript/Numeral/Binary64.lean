import StackScript.Text.Basic

/-! # Binary floating point, exactly

A finite double is an integer times a power of two. This module takes doubles apart into
those two numbers and rounds ratios of natural numbers to the nearest double, which is all
that conversions, exact comparisons and remainders need.
-/

namespace StackScript.Binary64

/-- What a double stands for. -/
inductive Parts where
  /-- Not a number. -/
  | nan
  | infinite (negative : Bool)
  /-- The number `± significand * 2 ^ exponent`; zero keeps its sign. -/
  | finite (negative : Bool) (significand : Nat) (exponent : Int)
  deriving DecidableEq, Repr

/-- The exponent of the subnormal numbers, the least that a double has. -/
def leastExponent : Int := -1074

/-- The significand of a normal number is at least this. -/
def hiddenBit : Nat := Nat.pow 2 52

/-- Takes a double apart. -/
def parts (x : Float) : Parts :=
  let bits := x.toBits.toNat
  let negative := bits / Nat.pow 2 63 == 1
  let field := bits / Nat.pow 2 52 % Nat.pow 2 11
  let fraction := bits % Nat.pow 2 52
  if field == 2047 then
    if fraction == 0 then .infinite negative else .nan
  else if field == 0 then .finite negative fraction leastExponent
  else .finite negative (hiddenBit + fraction) (leastExponent + (field - 1 : Nat))

/-- Is the sign bit of a double set? -/
def isNegative (x : Float) : Bool := Nat.pow 2 63 ≤ x.toBits.toNat

/-- The positive infinity. -/
def infinity : Float := Float.ofBits 0x7ff0000000000000

/-- The double that is not a number. -/
def notANumber : Float := Float.ofBits 0x7ff8000000000000

/-- `x` with the sign of `sign`. -/
def withSign (negative : Bool) (x : Float) : Float :=
  if negative == isNegative x then x else -x

/-- `num / den` to the nearest integer; a tie goes to the even one. -/
def roundRatio (num den : Nat) : Nat :=
  let quotient := num / den
  let twice := 2 * (num % den)
  if twice > den || (twice == den && quotient % 2 == 1) then quotient + 1 else quotient

/-- The exponent `e` with `2 ^ e ≤ num / den < 2 ^ (e + 1)`, for positive numbers. -/
def binaryLog (num den : Nat) : Int :=
  let estimate : Int := num.log2 - den.log2
  let isBelow :=
    if 0 ≤ estimate then num < den * Nat.pow 2 estimate.toNat
    else num * Nat.pow 2 (-estimate).toNat < den
  if isBelow then estimate - 1 else estimate

/-- The word of the double that is nearest to `num / den`; a tie goes to the even
significand, and a ratio above every double gives the infinity. -/
def nearestWord (num den : Nat) : Nat :=
  if num = 0 then 0
  else
    let exponent := max (binaryLog num den - 52) leastExponent
    let significand :=
      if 0 ≤ exponent then roundRatio num (den * Nat.pow 2 exponent.toNat)
      else roundRatio (num * Nat.pow 2 (-exponent).toNat) den
    -- Rounding up to `2 ^ 53` carries into the field of the exponent by itself.
    let word := (exponent - leastExponent).toNat * hiddenBit + significand
    min word 0x7ff0000000000000

/-- The double nearest to `± num / den`. -/
def nearest (negative : Bool) (num den : Nat) : Float :=
  withSign negative (Float.ofBits (nearestWord num den).toUInt64)

/-- The double nearest to an integer, unless that is an infinity. -/
def ofInt? (n : Int) : Option Float :=
  let word := nearestWord n.natAbs 1
  if word < 0x7ff0000000000000 then some (withSign (n < 0) (Float.ofBits word.toUInt64))
  else none

/-- The natural number `significand * 2 ^ exponent`, without its fraction. -/
def scale (significand : Nat) (exponent : Int) : Nat :=
  if 0 ≤ exponent then significand * Nat.pow 2 exponent.toNat
  else significand / Nat.pow 2 (-exponent).toNat

/-- A finite double without its fraction, as an integer. -/
def truncate? (x : Float) : Option Int :=
  match parts x with
  | .finite negative significand exponent =>
      let n : Int := scale significand exponent
      some (if negative then -n else n)
  | _ => none

/-- Has a finite double no fraction? -/
def isIntegral (x : Float) : Bool :=
  match parts x with
  | .finite _ significand exponent =>
      0 ≤ exponent || significand % Nat.pow 2 (-exponent).toNat == 0
  | _ => false

/-- Is a double an odd integer? -/
def isOddInteger (x : Float) : Bool :=
  isIntegral x &&
    match truncate? x with
    | some n => n % 2 == 1
    | none => false

/-- Compares an integer with a double that is a number, without rounding either. -/
def compareInt (n : Int) (x : Float) : Ordering :=
  match parts x with
  | .finite negative significand exponent =>
      let m : Int := if negative then -significand else significand
      if 0 ≤ exponent then compare n (m * Int.pow 2 exponent.toNat)
      else compare (n * Int.pow 2 (-exponent).toNat) m
  | _ => if isNegative x then .gt else .lt

/-- What is left of `x` after subtracting the multiple of `y` that is nearest towards zero,
without rounding. It has the sign of `x`. -/
def remainder (x y : Float) : Float :=
  match parts x, parts y with
  | .finite negative m p, .finite _ n q =>
      let low := min p q
      let rest := (m * Nat.pow 2 (p - low).toNat) % (n * Nat.pow 2 (q - low).toNat)
      if n = 0 then notANumber
      else if 0 ≤ low then nearest negative (rest * Nat.pow 2 low.toNat) 1
      else nearest negative rest (Nat.pow 2 (-low).toNat)
  | .finite .., .infinite _ => x
  | _, _ => notANumber

end StackScript.Binary64
