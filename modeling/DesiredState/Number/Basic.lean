import DesiredState.Number.Shortest

/-!
Numbers of a document: integers, kept exactly, and binary64 values.
An integer never equals a binary64 value, and the two zeros are equal although
their texts differ.
-/
namespace DesiredState

inductive Number where
  | int (i : Int)
  | real (x : Binary64)
deriving DecidableEq, Repr

namespace Number

/-- Integers are held from `-2 ^ 63` up to `2 ^ 64 - 1`. -/
def InRange : Number → Prop
  | int i => Int64.minValue.toInt ≤ i ∧ i < UInt64.size
  | real _ => True

/-- Positive zero stands for both zeros. -/
def normal : Number → Number
  | int i => int i
  | real x => if x.isZero then real ⟨false, 0, 0⟩ else real x

instance : BEq Number := ⟨fun a b => decide (a.normal = b.normal)⟩

theorem beq_iff (a b : Number) : (a == b) = true ↔ a.normal = b.normal := by
  simp [BEq.beq]

instance : EquivBEq Number where
  rfl := (beq_iff _ _).2 rfl
  symm h := (beq_iff _ _).2 ((beq_iff _ _).1 h).symm
  trans h k := (beq_iff _ _).2 (((beq_iff _ _).1 h).trans ((beq_iff _ _).1 k))

@[simp] theorem int_beq_int (i j : Int) : (int i == int j) = decide (i = j) := by
  simp [BEq.beq, normal]

/-- Where a binary64 value is written without an exponent. -/
structure Layout where
  least : Int
  greatest : Int

/-- From `0.00001` up to sixteen integer digits. -/
def positional : Layout := ⟨-5, 15⟩

def digitText (digits : List Nat) : String :=
  String.ofList (digits.map (fun d => Char.ofNat (d + '0'.toNat)))

def zeros (n : Nat) : String := String.ofList (List.replicate n '0')

def decimalText (d : Binary64.Decimal) : String :=
  let n : Int := d.digits.length
  if 0 ≤ d.exponent ∧ d.exponent ≤ positional.greatest then
    if n ≤ d.exponent + 1 then
      digitText d.digits ++ zeros (d.exponent + 1 - n).toNat ++ ".0"
    else
      let whole := (d.exponent + 1).toNat
      digitText (d.digits.take whole) ++ "." ++ digitText (d.digits.drop whole)
  else if d.exponent < 0 ∧ positional.least ≤ d.exponent then
    "0." ++ zeros (-d.exponent - 1).toNat ++ digitText d.digits
  else
    let fraction := if d.digits.length ≤ 1 then "" else "." ++ digitText (d.digits.drop 1)
    let sign := if d.exponent < 0 then "-" else "+"
    digitText (d.digits.take 1) ++ fraction ++ "e" ++ sign ++ d.exponent.natAbs.repr

def text : Number → String
  | int i => if i < 0 then "-" ++ i.natAbs.repr else i.natAbs.repr
  | real x => (if x.negative then "-" else "") ++ decimalText x.shortest

end Number

end DesiredState
