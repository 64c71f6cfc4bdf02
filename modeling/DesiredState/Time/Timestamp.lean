import DesiredState.Text.Blank
import DesiredState.Text.Numeral
import DesiredState.Time.Calendar

/-!
Points in time and their text.
The text is a date, a time and a zone, with blanks allowed between the parts;
the zone may be an offset and is then taken off, which must not lead beyond
the years that dates are kept for. A leap second is the second before it with
a nanosecond count beyond a full second. Later points are greater.
-/
namespace DesiredState

structure Timestamp where
  /-- Seconds since the start of 1970. -/
  seconds : Int
  nanoseconds : Nat
deriving DecidableEq, Repr

namespace Timestamp

def before (a b : Timestamp) : Bool :=
  decide (a.seconds < b.seconds ∨ (a.seconds = b.seconds ∧ a.nanoseconds < b.nanoseconds))

/-- At most `width` digits at the front of a text, and the rest. -/
def takeDigits (width : Nat) (text : List Char) : List Char × List Char :=
  let digits := (text.take width).takeWhile (fun c => (Text.digitValue? c).isSome)
  (digits, text.drop digits.length)

/-- A number of one to `width` digits after optional blanks. -/
def readNumber (width : Nat) (text : List Char) : Option (Nat × List Char) := do
  let (digits, rest) := takeDigits width (Text.trimStart text)
  return (← Text.digitsValue? digits, rest)

/-- A sign lifts the limit of four digits. -/
def readYear (text : List Char) : Option (Int × List Char) := do
  match Text.trimStart text with
  | '-' :: rest => do
    let (digits, rest) := takeDigits rest.length rest
    return (-(← Text.digitsValue? digits : Nat), rest)
  | '+' :: rest => do
    let (digits, rest) := takeDigits rest.length rest
    return ((← Text.digitsValue? digits : Nat), rest)
  | rest => do
    let (n, rest) ← readNumber 4 rest
    return (n, rest)

/-- A separator after optional blanks. -/
def readMark (mark : Char) (text : List Char) : Option (List Char) :=
  match Text.trimStart text with
  | c :: rest => if c = mark then some rest else none
  | [] => none

/-- Nanoseconds after an optional point; digits beyond the ninth are dropped. -/
def readFraction : List Char → Option (Nat × List Char)
  | '.' :: rest => do
    let (digits, rest) := takeDigits 9 rest
    let n ← Text.digitsValue? digits
    return (n * Nat.pow 10 (9 - digits.length),
      rest.dropWhile (fun c => (Text.digitValue? c).isSome))
  | rest => some (0, rest)

/-- An offset after its sign, in seconds. -/
def readOffset (text : List Char) : Option (Int × List Char) := do
  match text with
  | a :: b :: rest =>
    let hours ← Text.digitsValue? [a, b]
    match rest.dropWhile (fun c => c = ':' || Text.isBlank c) with
    | c :: d :: rest =>
      let minutes ← Text.digitsValue? [c, d]
      if minutes < 60 then return (hours * 3600 + minutes * 60, rest) else none
    | _ => none
  | _ => none

def readZone (text : List Char) : Option (Int × List Char) :=
  match Text.trimStart text with
  | 'Z' :: rest | 'z' :: rest => some (0, rest)
  | '+' :: rest => readOffset rest
  | '-' :: rest | '−' :: rest => (readOffset rest).map (fun (n, rest) => (-n, rest))
  | u :: t :: c :: rest =>
    if (u = 'U' ∨ u = 'u') ∧ (t = 'T' ∨ t = 't') ∧ (c = 'C' ∨ c = 'c') then some (0, rest) else none
  | _ => none

def readDate (text : List Char) : Option (Calendar.Date × List Char) := do
  let (year, rest) ← readYear text
  let (month, rest) ← readNumber 2 (← readMark '-' rest)
  let (day, rest) ← readNumber 2 (← readMark '-' rest)
  let date : Calendar.Date := ⟨year, month, day⟩
  if date.valid then return (date, rest) else none

/-- The second of the day with its nanoseconds. -/
def readTime (text : List Char) : Option ((Nat × Nat) × List Char) := do
  let (hour, rest) ← readNumber 2 text
  let (minute, rest) ← readNumber 2 (← readMark ':' rest)
  let (second, rest) ← readNumber 2 (← readMark ':' rest)
  let (fraction, rest) ← readFraction rest
  if hour < 24 ∧ minute < 60 ∧ second ≤ 60 then
    let ofDay := hour * 3600 + minute * 60
    if second = 60 then return ((ofDay + 59, 1000000000 + fraction), rest)
    else return ((ofDay + second, fraction), rest)
  else none

def ofText? (text : String) : Option Timestamp := do
  let (date, rest) ← readDate text.toList
  match rest with
  | c :: rest =>
    if c = 'T' ∨ c = 't' ∨ c = ' ' then
      let ((ofDay, nanoseconds), rest) ← readTime rest
      let (offset, rest) ← readZone rest
      if (Text.trimStart rest).isEmpty ∧ offset.natAbs < 86400 then
        let seconds := date.toDays * 86400 + ofDay - offset
        if Calendar.isKept (seconds.fdiv 86400) then return ⟨seconds, nanoseconds⟩ else none
      else none
    else none
  | [] => none

def padded (width n : Nat) : String :=
  let digits := n.repr
  String.ofList (List.replicate (width - digits.length) '0') ++ digits

/-- Four digits, or a sign and at least four digits. -/
def yearText (year : Int) : String :=
  if 0 ≤ year ∧ year ≤ 9999 then padded 4 year.toNat
  else (if year < 0 then "-" else "+") ++ padded 4 year.natAbs

/-- Date and time in whole seconds, without a zone. -/
def secondsText (t : Timestamp) : String :=
  let date := Calendar.Date.ofDays (t.seconds.fdiv 86400)
  let ofDay := (t.seconds.fmod 86400).toNat
  let second := ofDay % 60 + t.nanoseconds / 1000000000
  yearText date.year ++ "-" ++ padded 2 date.month ++ "-" ++ padded 2 date.day ++ "T" ++
    padded 2 (ofDay / 3600) ++ ":" ++ padded 2 (ofDay / 60 % 60) ++ ":" ++ padded 2 second

/-- None, three, six or nine digits, as many as it takes. -/
def fractionText (nanoseconds : Nat) : String :=
  let n := nanoseconds % 1000000000
  if n = 0 then ""
  else if n % 1000000 = 0 then "." ++ padded 3 (n / 1000000)
  else if n % 1000 = 0 then "." ++ padded 6 (n / 1000)
  else "." ++ padded 9 n

def text (t : Timestamp) : String := t.secondsText ++ fractionText t.nanoseconds ++ "Z"

/-- The text in whole seconds. -/
def shortText (t : Timestamp) : String := t.secondsText ++ "Z"

end Timestamp

end DesiredState
