import DesiredState.Text.Split
import DesiredState.Text.Utf8

/-!
Names and values inside an address.
A blank is written as a plus; letters, digits and four marks stand for
themselves and every other octet is a percent sign with two hexadecimal
digits. A percent sign without them stands for itself.
-/
namespace DesiredState.Text.Percent

def hexDigit (n : Nat) : Char := if n < 10 then Char.ofNat (48 + n) else Char.ofNat (55 + n)

def hexValue? (octet : UInt8) : Option Nat :=
  let n := octet.toNat
  if 48 ≤ n ∧ n ≤ 57 then some (n - 48)
  else if 65 ≤ n ∧ n ≤ 70 then some (n - 55)
  else if 97 ≤ n ∧ n ≤ 102 then some (n - 87)
  else none

/-- Characters that stand for themselves. -/
def isPlain (c : Char) : Bool := c.isAlphanum || "*-._".toList.contains c

def encodeOctet (octet : UInt8) : List Char :=
  let c := Char.ofNat octet.toNat
  if c = ' ' then ['+']
  else if isPlain c then [c]
  else ['%', hexDigit (octet.toNat / 16), hexDigit (octet.toNat % 16)]

def encode (text : List Char) : List Char := (Utf8.encode text).flatMap encodeOctet

def blank : UInt8 := 32

def plus : UInt8 := 43

def percent : UInt8 := 37

/-- The octet that a percent sign and two digits stand for. -/
def escaped? (mark high low : UInt8) : Option UInt8 :=
  if mark = percent then do
    return UInt8.ofNat ((← hexValue? high) * 16 + (← hexValue? low))
  else none

def plain (octet : UInt8) : UInt8 := if octet = plus then blank else octet

def decodeOctets : List UInt8 → List UInt8
  | [] => []
  | [a] => [plain a]
  | [a, b] => [plain a, plain b]
  | a :: b :: c :: rest =>
    match escaped? a b c with
    | some octet => octet :: decodeOctets rest
    | none => plain a :: decodeOctets (b :: c :: rest)

def decode (text : List Char) : List Char := Utf8.decode (decodeOctets (Utf8.encode text))

/-- A name and a value around an equals sign. -/
def encodePair (name value : List Char) : List Char := encode name ++ '=' :: encode value

/-- A name with the value after its first equals sign; without one the value is empty. -/
def decodePair (piece : List Char) : String × String :=
  let name := piece.takeWhile (· ≠ '=')
  let value := piece.drop (name.length + 1)
  (String.ofList (decode name), String.ofList (decode value))

/-- The pairs between ampersands; empty pieces do not count. -/
def decodePairs (text : List Char) : List (String × String) :=
  ((segments '&' text).filter (!·.isEmpty)).map decodePair

end DesiredState.Text.Percent
