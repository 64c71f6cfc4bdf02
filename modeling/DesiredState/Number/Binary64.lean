/-!
Finite binary64 values in exact arithmetic.
A magnitude is `significand * 2 ^ scale / 2 ^ 1074`. Sums and products are not
needed here: the only operation is rounding a ratio of naturals to the nearest
magnitude, ties going to the even significand.
-/
namespace DesiredState

/-- The significand is below `2 ^ 53`, and at least `2 ^ 52` unless the scale is 0. -/
structure Binary64 where
  negative : Bool
  significand : Nat
  scale : Nat
deriving DecidableEq, Repr

namespace Binary64

def maxScale : Nat := 2045

/-- The unit of the smallest scale is `1 / 2 ^ 1074`. -/
def unitDenominator : Nat := Nat.pow 2 1074

/-- The nearest natural to `num / den`, the even one of two equally near. -/
def nearest (num den : Nat) : Nat :=
  let below := num / den
  let rest := num % den
  if 2 * rest > den ∨ (2 * rest = den ∧ below % 2 = 1) then below + 1 else below

/-- The position of the leading binary digit of `num / den`. -/
def binaryExponent (num den : Nat) : Int :=
  let guess : Int := (num.log2 : Int) - den.log2
  let power := Nat.pow 2 guess.natAbs
  let reached := if guess < 0 then num * power ≥ den else num ≥ den * power
  if reached then guess else guess - 1

/-- The magnitude nearest to `num / den`, or nothing beyond the largest finite one. -/
def round? (negative : Bool) (num den : Nat) : Option Binary64 :=
  if num = 0 then some ⟨negative, 0, 0⟩
  else
    let scale := (binaryExponent num den + 1022).toNat
    let significand := nearest (num * unitDenominator) (den * Nat.pow 2 scale)
    let rounded : Binary64 :=
      if significand = Nat.pow 2 53 then ⟨negative, Nat.pow 2 52, scale + 1⟩
      else ⟨negative, significand, scale⟩
    if rounded.scale ≤ maxScale then some rounded else none

def isZero (x : Binary64) : Bool := x.significand == 0

def numerator (x : Binary64) : Nat := x.significand * Nat.pow 2 x.scale

/-- The product of two magnitudes, rounded. -/
def mul? (x y : Binary64) : Option Binary64 :=
  round? (x.negative != y.negative) (x.numerator * y.numerator)
    (unitDenominator * unitDenominator)

/-- The quotient by a magnitude other than zero, rounded. -/
def div? (x y : Binary64) : Option Binary64 :=
  round? (x.negative != y.negative) x.numerator y.numerator

def powerOfTen? (n : Nat) : Option Binary64 := round? false (Nat.pow 10 n) 1

/--
A decimal significand scaled by a power of ten. The significand is rounded
first and then multiplied or divided by the rounded power of ten, the division
in two steps where the power alone exceeds the finite values.
-/
def ofDecimal? (significand : Nat) (exponent : Int) : Option Binary64 := do
  let x ← round? false significand 1
  if x.isZero then pure x
  else if 0 ≤ exponent then
    if exponent ≤ 308 then x.mul? (← powerOfTen? exponent.toNat) else none
  else if -308 ≤ exponent then x.div? (← powerOfTen? exponent.natAbs)
  else if -616 ≤ exponent then
    (← x.div? (← powerOfTen? 308)).div? (← powerOfTen? (exponent + 308).natAbs)
  else pure ⟨false, 0, 0⟩

end Binary64

end DesiredState
