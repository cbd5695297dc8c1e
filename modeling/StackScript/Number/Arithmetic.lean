import StackScript.Number.Compare

/-! # Arithmetic

Integers are exact. As soon as a double takes part, an integer operand is rounded to the
nearest double first. Results are normalized.
-/

namespace StackScript

namespace Number

/-- Above this many bits a result counts as too large for memory. -/
def memoryBits : Nat := Nat.pow 2 36

/-- Applies the operation for integers or the one for doubles, by the operands. -/
def combine (onInts : Int → Int → Except Fault Number)
    (onFloats : Float → Float → Except Fault Number) : Number → Number → Except Fault Number
  | .int m, .int n => onInts m n
  | a, b => do onFloats (← a.toFloat) (← b.toFloat)

/-- The sum, before it is normalized. -/
def add : Number → Number → Except Fault Number :=
  combine (fun m n => .ok (.int (m + n))) (fun x y => .ok (.float (x + y)))

/-- The difference, before it is normalized. -/
def sub : Number → Number → Except Fault Number :=
  combine (fun m n => .ok (.int (m - n))) (fun x y => .ok (.float (x - y)))

/-- The product, before it is normalized. -/
def mul : Number → Number → Except Fault Number :=
  combine (fun m n => .ok (.int (m * n))) (fun x y => .ok (.float (x * y)))

/-- Division is always that of doubles; a division by zero gives an infinity or, for zero by
zero, what is not a number. -/
def div (a b : Number) : Except Fault Number := do
  let x ← a.toFloat
  let y ← b.toFloat
  return .float (x / y)

/-- The remainder of doubles with the sign of the divisor. -/
def floatModulo (x y : Float) : Except Fault Number :=
  if y == 0 then .error .floatModuloByZero
  else
    let rest := Binary64.remainder x y
    if rest == 0 then .ok (.float (Binary64.withSign (Binary64.isNegative y) 0))
    else if (y < 0) != (rest < 0) then .ok (.float (rest + y))
    else .ok (.float rest)

/-- The remainder with the sign of the divisor. -/
def mod : Number → Number → Except Fault Number :=
  combine (fun m n => if n = 0 then .error .integerModuloByZero else .ok (.int (Int.fmod m n)))
    floatModulo

/-- The power of two doubles, by the rules for zeros, infinities and what is not a number
first. A negative base has real powers for integral exponents only. -/
def floatPower (base exponent : Float) (shown : Except Fault (Text × Text)) :
    Except Fault Number :=
  let odd := Binary64.isOddInteger exponent
  let size := Binary64.withSign false base
  if exponent == 0 then .ok (.float 1)
  else if base.isNaN then .ok (.float base)
  else if exponent.isNaN then .ok (.float (if base == 1 then 1 else exponent))
  else if exponent.isInf then
    if size == 1 then .ok (.float 1)
    else if (0 < exponent) == (1 < size) then .ok (.float Binary64.infinity)
    else .ok (.float 0)
  else if base.isInf then
    let value := if 0 < exponent then Binary64.infinity else 0
    .ok (.float (Binary64.withSign (odd && Binary64.isNegative base) value))
  else if base == 0 then
    if exponent < 0 then .error .zeroToNegativePower
    else .ok (.float (if odd then base else 0))
  else if base < 0 && !Binary64.isIntegral exponent then
    if (Float.pow size exponent).isInf then .error .complexPowerTooLarge
    else do
      let (left, right) ← shown
      .error (.noRealPower left right)
  else
    let value := Float.pow size exponent
    if value.isInf then .error .powerTooLarge
    else .ok (.float (if base < 0 && odd then -value else value))

/-- The power of integers is exact for exponents from zero on. -/
def intPower (base : Int) (exponent : Nat) : Except Fault Number :=
  if base.natAbs ≤ 1 then .ok (.int (if exponent = 0 then 1 else
    if exponent % 2 = 0 then base * base else base))
  else if memoryBits < (base.natAbs.log2 + 1) * exponent then .error .outOfMemory
  else .ok (.int (Int.pow base exponent))

/-- A power is exact if both numbers are integers and the exponent is not negative, and that
of doubles otherwise. -/
def pow (base exponent : Number) : Except Fault Number :=
  let onFloats (x y : Float) := floatPower x y do return (← base.inspect, ← exponent.inspect)
  match base, exponent with
  | .int m, .int (.ofNat n) => intPower m n
  | _, _ => do onFloats (← base.toFloat) (← exponent.toFloat)

end Number

namespace Arithmetic

/-- Carries out an operation on two numbers. -/
def apply : Arithmetic → Number → Number → Except Fault Number
  | .add, a, b => (Number.add a b).map Number.normalize
  | .subtract, a, b => (Number.sub a b).map Number.normalize
  | .multiply, a, b => (Number.mul a b).map Number.normalize
  | .divide, a, b => (Number.div a b).map Number.normalize
  | .power, a, b => (Number.pow a b).map Number.normalize
  | .modulo, a, b => (Number.mod a b).map Number.normalize

end Arithmetic

namespace Number

/-- The exclusive or of two integers in two's complement. -/
def xor : Int → Int → Int
  | .ofNat m, .ofNat n => .ofNat (m ^^^ n)
  | .ofNat m, .negSucc n => .negSucc (m ^^^ n)
  | .negSucc m, .ofNat n => .negSucc (m ^^^ n)
  | .negSucc m, .negSucc n => .ofNat (m ^^^ n)

/-- An integer is held in words of 30 bits, and no integer has more words than this. -/
def wordLimit : Nat := 2305843009213693945

/-- How many words an integer takes once `count` bits are added below it. -/
def shiftedWords (n : Int) (count : Nat) : Nat := n.natAbs.log2 / 30 + 1 + (count + 29) / 30

/-- Multiplies by a power of two, or divides by one and rounds down if `count` is
negative. -/
def shift (n count : Int) : Except Fault Int :=
  match count with
  | .negSucc k => .ok (if n.natAbs.log2 < k + 1 then (if n < 0 then -1 else 0) else n >>> (k + 1))
  | .ofNat k =>
      if n = 0 then .ok 0
      else if wordLimit < shiftedWords n k then .error .shiftTooFar
      else if memoryBits < k then .error .outOfMemory
      else .ok (n * Int.pow 2 k)

end Number

end StackScript
