import DesiredState.Json.Raw

/-!
Reading a document from its text.
A text is one document with blanks around it, read as it is written and to any
depth. A number keeps as many leading digits as fit 64 bits; beyond the bounds
of a binary64 it is unreadable, and so is a text with half a surrogate pair.
-/
namespace DesiredState.Json.Reader

def isBlank (c : Char) : Bool := c == ' ' || c == '\n' || c == '\t' || c == '\r'

def skipBlanks (text : List Char) : List Char := text.dropWhile isBlank

def digit? (c : Char) : Option Nat :=
  if '0' ≤ c ∧ c ≤ '9' then some (c.toNat - '0'.toNat) else none

def hexDigit? (c : Char) : Option Nat :=
  if '0' ≤ c ∧ c ≤ '9' then some (c.toNat - '0'.toNat)
  else if 'a' ≤ c ∧ c ≤ 'f' then some (c.toNat - 'a'.toNat + 10)
  else if 'A' ≤ c ∧ c ≤ 'F' then some (c.toNat - 'A'.toNat + 10)
  else none

def hex4? : List Char → Option (Nat × List Char)
  | a :: b :: c :: d :: rest => do
    pure (((← hexDigit? a) * 16 + (← hexDigit? b)) * 256 + (← hexDigit? c) * 16 + (← hexDigit? d),
      rest)
  | _ => none

def isHighHalf (unit : Nat) : Bool := 0xD800 ≤ unit && unit < 0xDC00

def isLowHalf (unit : Nat) : Bool := 0xDC00 ≤ unit && unit < 0xE000

/-- The lower half of a surrogate pair, as an escape of its own. -/
def lowHalf? : List Char → Option (Nat × List Char)
  | '\\' :: 'u' :: rest => (hex4? rest).filter (isLowHalf ·.1)
  | _ => none

/-- A `\u` escape after its letter; half a surrogate pair is no character. -/
def unicodeEscape? (text : List Char) : Option (Option Char × List Char) := do
  let (unit, rest) ← hex4? text
  if isHighHalf unit then
    match lowHalf? rest with
    | some (low, rest) =>
      return (some (Char.ofNat ((unit - 0xD800) * 1024 + (low - 0xDC00) + 0x10000)), rest)
    | none => return (none, rest)
  else if isLowHalf unit then return (none, rest)
  else return (some (Char.ofNat unit), rest)

def escape? : List Char → Option (Option Char × List Char)
  | '"' :: rest => some (some '"', rest)
  | '\\' :: rest => some (some '\\', rest)
  | '/' :: rest => some (some '/', rest)
  | 'b' :: rest => some (some (Char.ofNat 8), rest)
  | 'f' :: rest => some (some (Char.ofNat 12), rest)
  | 'n' :: rest => some (some '\n', rest)
  | 'r' :: rest => some (some '\r', rest)
  | 't' :: rest => some (some '\t', rest)
  | 'u' :: rest => unicodeEscape? rest
  | _ => none

/-- The characters up to the closing quote, collected in reverse while all are readable. -/
def string? : Nat → Option (List Char) → List Char → Option (Option String × List Char)
  | 0, _, _ => none
  | fuel + 1, done?, text =>
    match text with
    | [] => none
    | '"' :: rest => some (done?.map fun done => String.ofList done.reverse, rest)
    | '\\' :: rest =>
      match escape? rest with
      | some (some c, rest) => string? fuel (done?.map (c :: ·)) rest
      | some (none, rest) => string? fuel none rest
      | none => none
    | c :: rest => if c.toNat < 32 then none else string? fuel (done?.map (c :: ·)) rest

/-- Digits at the front of a text, as values. -/
def digits : List Char → List Nat × List Char
  | [] => ([], [])
  | c :: rest =>
    match digit? c with
    | some d => let (ds, rest) := digits rest; (d :: ds, rest)
    | none => ([], c :: rest)

def maxSignificand : Nat := UInt64.size - 1

/-- Appends digits while the significand fits 64 bits; also the number of digits left over. -/
def appendDigits (significand : Nat) : List Nat → Nat × Nat
  | [] => (significand, 0)
  | d :: rest =>
    if significand * 10 + d ≤ maxSignificand then appendDigits (significand * 10 + d) rest
    else (significand, rest.length + 1)

inductive ExponentPart where
  | absent
  | given (negative : Bool) (digits : List Nat)

def exponentPart? : List Char → Option (ExponentPart × List Char)
  | c :: rest =>
    if c = 'e' ∨ c = 'E' then
      let (negative, rest) := match rest with
        | '+' :: rest => (false, rest)
        | '-' :: rest => (true, rest)
        | rest => (false, rest)
      match digits rest with
      | ([], _) => none
      | (ds, rest) => some (.given negative ds, rest)
    else some (.absent, c :: rest)
  | [] => some (.absent, [])

def maxExponent : Nat := Nat.pow 2 31 - 1

/-- A decimal with the given exponent part; an exponent too large for 31 bits leaves only zero. -/
def scaled? (significand : Nat) (start : Int) : ExponentPart → Option Binary64
  | .absent => Binary64.ofDecimal? significand start
  | .given negative ds =>
    let e := ds.foldl (fun n d => n * 10 + d) 0
    if maxExponent < e then
      if significand = 0 ∨ negative then some ⟨false, 0, 0⟩ else none
    else Binary64.ofDecimal? significand (if negative then start - e else start + e)

def signed (negative : Bool) (x : Binary64) : Number := .real { x with negative }

/-- An integer without a fraction or exponent; `-0` is the negative zero. -/
def integer (negative : Bool) (n : Nat) : Option Number :=
  if negative then
    if n = 0 ∨ Nat.pow 2 63 < n then (Binary64.round? true n 1).map .real else some (.int (-n))
  else some (.int n)

def number? (negative : Bool) (text : List Char) : Option (Option Number × List Char) := do
  let (whole, rest) := digits text
  match whole with
  | [] => none
  | 0 :: _ :: _ => none
  | _ =>
    let (significand, dropped) := appendDigits 0 whole
    match rest with
    | '.' :: rest =>
      let (fraction, rest) := digits rest
      if fraction.isEmpty then none
      else
        let (significand, left) := appendDigits significand fraction
        let start : Int := (dropped : Int) - ((fraction.length : Int) - left)
        let (part, rest) ← exponentPart? rest
        return ((scaled? significand start part).map (signed negative), rest)
    | rest =>
      let (part, rest) ← exponentPart? rest
      match part, dropped with
      | .absent, 0 => return (integer negative significand, rest)
      | part, dropped => return ((scaled? significand dropped part).map (signed negative), rest)

/-- Elements up to the closing bracket, at least one of them. -/
def elements? {α : Type} (one : List Char → Option (α × List Char)) (close : Char) :
    Nat → List α → List Char → Option (List α × List Char)
  | 0, _, _ => none
  | fuel + 1, done, text =>
    match one text with
    | none => none
    | some (x, rest) =>
      match skipBlanks rest with
      | ',' :: rest => elements? one close fuel (x :: done) rest
      | c :: rest => if c = close then some ((x :: done).reverse, rest) else none
      | [] => none

def member? (fuel : Nat) (document : List Char → Option (Raw × List Char)) (text : List Char) :
    Option ((Option String × Raw) × List Char) := do
  match skipBlanks text with
  | '"' :: rest =>
    let (key?, rest) ← string? fuel (some []) rest
    match skipBlanks rest with
    | ':' :: rest =>
      let (v, rest) ← document rest
      return ((key?, v), rest)
    | _ => none
  | _ => none

/-- A document at the front of a text shorter than `fuel`. -/
def document? : Nat → List Char → Option (Raw × List Char)
  | 0, _ => none
  | fuel + 1, text =>
    match skipBlanks text with
    | 'n' :: 'u' :: 'l' :: 'l' :: rest => some (.null, rest)
    | 't' :: 'r' :: 'u' :: 'e' :: rest => some (.bool true, rest)
    | 'f' :: 'a' :: 'l' :: 's' :: 'e' :: rest => some (.bool false, rest)
    | '"' :: rest => (string? fuel (some []) rest).map fun (s?, rest) => (.str s?, rest)
    | '-' :: rest => (number? true rest).map fun (n?, rest) => (.num n?, rest)
    | '[' :: rest =>
      match skipBlanks rest with
      | ']' :: rest => some (.arr [], rest)
      | rest =>
        (elements? (document? fuel) ']' fuel [] rest).map fun (items, rest) => (.arr items, rest)
    | '\x7b' :: rest =>
      match skipBlanks rest with
      | '\x7d' :: rest => some (.obj [], rest)
      | rest =>
        (elements? (member? fuel (document? fuel)) '\x7d' fuel [] rest).map
          fun (members, rest) => (.obj members, rest)
    | rest => (number? false rest).map fun (n?, rest) => (.num n?, rest)

end DesiredState.Json.Reader

namespace DesiredState.Json

/-- Nothing if the text is not exactly one document. -/
def Raw.ofText? (text : String) : Option Raw :=
  let chars := text.toList
  match Reader.document? (chars.length + 1) chars with
  | some (v, rest) => if (Reader.skipBlanks rest).isEmpty then some v else none
  | none => none

/-- Nothing if the text is not exactly one document or the document has no value. -/
def ofText? (text : String) : Option Json := (Raw.ofText? text).bind (·.value? Raw.maxDepth)

end DesiredState.Json
