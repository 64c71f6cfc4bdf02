/-!
Decimal numerals as words of a bounded width.
A numeral is ASCII digits, at least one, with an optional sign in front: a
plus for every width and a minus where negative values exist. Leading zeros
are allowed; a value out of range is no numeral.
-/
namespace DesiredState.Text

def digitValue? (c : Char) : Option Nat :=
  if '0' ≤ c ∧ c ≤ '9' then some (c.toNat - '0'.toNat) else none

def appendDigit (n : Nat) (c : Char) : Option Nat :=
  (digitValue? c).map (fun d => n * 10 + d)

/-- The value of a text of ASCII digits, at least one. -/
def digitsValue? : List Char → Option Nat
  | [] => none
  | text => text.foldlM appendDigit 0

/-- An optional plus and digits. -/
def unsigned? : List Char → Option Nat
  | '+' :: rest => digitsValue? rest
  | text => digitsValue? text

/-- An optional sign and digits. -/
def signed? : List Char → Option Int
  | '-' :: rest => (digitsValue? rest).map (fun n => -(n : Int))
  | text => (unsigned? text).map Int.ofNat

/-- A numeral below `2 ^ 64`. -/
def nat64? (text : String) : Option Nat :=
  (unsigned? text.toList).filter (· < UInt64.size)

/-- A numeral of 32 signed bits. -/
def int32? (text : String) : Option Int32 :=
  (signed? text.toList).bind fun i =>
    if Int32.minValue.toInt ≤ i ∧ i ≤ Int32.maxValue.toInt then some (Int32.ofInt i) else none

/-- A minus where needed and no leading zeros. -/
def intText (i : Int) : String :=
  if i < 0 then "-" ++ i.natAbs.repr else i.natAbs.repr

theorem intText_eq_toString (i : Int) : intText i = toString i := by
  cases i with
  | ofNat n => rfl
  | negSucc n => exact if_pos (Int.negSucc_lt_zero n)

end DesiredState.Text
