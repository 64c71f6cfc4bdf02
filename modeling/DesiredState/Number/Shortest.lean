import DesiredState.Number.Binary64

/-!
The shortest decimal that reads back as a given binary64 magnitude.
The reals that round to the magnitude form an interval, closed when the
significand is even. On each decimal grid only the two neighbours of the
magnitude can lie in it, so the grids with 1, 2, ... 17 digits are tried in
turn; of two hits on one grid the nearer is taken, and the even one on a tie.
-/
namespace DesiredState.Binary64

/-- Digits `d₁d₂d₃…` with leading exponent `e` stand for `d₁.d₂d₃… * 10 ^ e`. -/
structure Decimal where
  digits : List Nat
  exponent : Int
deriving DecidableEq, Repr

/-- Magnitudes over the common denominator `4 * 2 ^ 1074`. -/
structure Interval where
  low : Nat
  value : Nat
  high : Nat
  closed : Bool

def intervalDenominator : Nat := 4 * unitDenominator

/-- Just above a power of two the spacing below is half the spacing above. -/
def interval (x : Binary64) : Interval :=
  let value := 4 * x.numerator
  let unit := Nat.pow 2 x.scale
  let below := if x.significand = Nat.pow 2 52 ∧ 0 < x.scale then unit else 2 * unit
  ⟨value - below, value, value + 2 * unit, x.significand % 2 == 0⟩

/-- Both sides of the comparison of `n * 10 ^ place` with `v / intervalDenominator`. -/
def compareAt (place : Int) (n v : Nat) : Nat × Nat :=
  if 0 ≤ place then (n * Nat.pow 10 place.toNat * intervalDenominator, v)
  else (n * intervalDenominator, v * Nat.pow 10 place.natAbs)

def Interval.holds (i : Interval) (place : Int) (n : Nat) : Bool :=
  let (a, low) := compareAt place n i.low
  let (b, high) := compareAt place n i.high
  if i.closed then decide (low ≤ a ∧ b ≤ high) else decide (low < a ∧ b < high)

/-- The largest multiple of `10 ^ place` that is not above the value. -/
def Interval.floorAt (i : Interval) (place : Int) : Nat :=
  if 0 ≤ place then i.value / (Nat.pow 10 place.toNat * intervalDenominator)
  else i.value * Nat.pow 10 place.natAbs / intervalDenominator

/-- Whether the value is nearer to the upper neighbour on the grid. -/
def Interval.roundsUp (i : Interval) (place : Int) (n : Nat) : Bool :=
  let (below, value) := compareAt place n i.value
  let (above, _) := compareAt place (n + 1) i.value
  let down := value - below
  let up := above - value
  decide (up < down ∨ (up = down ∧ n % 2 = 1))

def Interval.onGrid? (i : Interval) (place : Int) : Option Nat :=
  let n := i.floorAt place
  match i.holds place n, i.holds place (n + 1) with
  | true, true => some (if i.roundsUp place n then n + 1 else n)
  | true, false => some n
  | false, true => some (n + 1)
  | false, false => none

/-- The exponent of the leading decimal digit. -/
def Interval.decimalExponent (i : Interval) : Int :=
  let guess := (binaryExponent i.value intervalDenominator * 30103) / 100000
  if i.floorAt guess = 0 then guess - 1
  else if i.floorAt (guess + 1) = 0 then guess
  else guess + 1

def digitsOf (n : Nat) : List Nat := (Nat.toDigits 10 n).map (fun c => c.toNat - '0'.toNat)

def dropTrailingZeros (digits : List Nat) : List Nat :=
  (digits.reverse.dropWhile (· = 0)).reverse

def Interval.shortest (i : Interval) (leading : Int) : Nat → Decimal
  | 0 => ⟨[0], 0⟩
  | more + 1 =>
    let place := leading - (16 - more : Int)
    match i.onGrid? place with
    | some n =>
      let digits := digitsOf n
      ⟨dropTrailingZeros digits, place + (digits.length - 1 : Int)⟩
    | none => i.shortest leading more

/-- The digits of the magnitude; its sign is left to the caller. -/
def shortest (x : Binary64) : Decimal :=
  if x.isZero then ⟨[0], 0⟩
  else
    let i := x.interval
    i.shortest i.decimalExponent 17

end DesiredState.Binary64
