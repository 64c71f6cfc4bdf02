/-!
Text from octets.
A character is one octet below 80, or a first octet that says how many more
follow. Octets that are the beginning of a character and do not end it are
read as one replacement character, and so is every other octet out of place;
any octets are therefore a text.
-/
namespace DesiredState.Text.Utf8

def replacement : Char := '\ufffd'

def encode (text : List Char) : List UInt8 := text.flatMap String.utf8EncodeChar

/-- A character that has begun: its code so far and what its next octet may be. -/
structure Begun where
  code : Nat
  /-- How many octets follow after the next one. -/
  further : Nat
  least : Nat
  greatest : Nat
deriving DecidableEq, Repr

/-- What a first octet begins; the next one is bounded where a shorter form would do, where half a
surrogate pair would follow and where the codes end. -/
def begun? (octet : Nat) : Option Begun :=
  if 0xC2 ≤ octet ∧ octet ≤ 0xDF then some ⟨octet - 0xC0, 0, 0x80, 0xBF⟩
  else if octet = 0xE0 then some ⟨0x0, 1, 0xA0, 0xBF⟩
  else if octet = 0xED then some ⟨0xD, 1, 0x80, 0x9F⟩
  else if 0xE1 ≤ octet ∧ octet ≤ 0xEF then some ⟨octet - 0xE0, 1, 0x80, 0xBF⟩
  else if octet = 0xF0 then some ⟨0x0, 2, 0x90, 0xBF⟩
  else if octet = 0xF4 then some ⟨0x4, 2, 0x80, 0x8F⟩
  else if 0xF1 ≤ octet ∧ octet ≤ 0xF3 then some ⟨octet - 0xF0, 2, 0x80, 0xBF⟩
  else none

/-- The character that a first octet completes, or what it begins. -/
def first (octet : Nat) : Option Char × Option Begun :=
  if octet < 0x80 then (some (Char.ofNat octet), none)
  else match begun? octet with
    | some b => (none, some b)
    | none => (some replacement, none)

/-- The code with one more octet. -/
def Begun.extended (b : Begun) (octet : Nat) : Nat := b.code * 64 + (octet - 0x80)

def decodeFrom : Option Begun → List UInt8 → List Char
  | none, [] => []
  | some _, [] => [replacement]
  | none, octet :: rest =>
    let (done?, next?) := first octet.toNat
    done?.toList ++ decodeFrom next? rest
  | some b, octet :: rest =>
    if b.least ≤ octet.toNat ∧ octet.toNat ≤ b.greatest then
      let code := b.extended octet.toNat
      match b.further with
      | 0 => Char.ofNat code :: decodeFrom none rest
      | further + 1 => decodeFrom (some ⟨code, further, 0x80, 0xBF⟩) rest
    else
      let (done?, next?) := first octet.toNat
      replacement :: (done?.toList ++ decodeFrom next? rest)

def decode (octets : List UInt8) : List Char := decodeFrom none octets

end DesiredState.Text.Utf8
