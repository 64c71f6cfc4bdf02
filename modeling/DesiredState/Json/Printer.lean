import DesiredState.Json.Basic

/-!
The compact text of a document: no blanks, members in key order, and only the
characters escaped that a string cannot hold.
-/
namespace DesiredState.Json

/-- Lower-case hexadecimal digits, at least `width` of them. -/
def hexDigits (width n : Nat) : List Char :=
  let digits := Nat.toDigits 16 n
  List.replicate (width - digits.length) '0' ++ digits

def escapeChar (c : Char) : List Char :=
  if c = '"' then ['\\', '"']
  else if c = '\\' then ['\\', '\\']
  else if c = '\n' then ['\\', 'n']
  else if c = '\r' then ['\\', 'r']
  else if c = '\t' then ['\\', 't']
  else if c.toNat = 8 then ['\\', 'b']
  else if c.toNat = 12 then ['\\', 'f']
  else if c.toNat < 32 then '\\' :: 'u' :: hexDigits 4 c.toNat
  else [c]

def stringText (s : String) : String :=
  String.ofList ('"' :: s.toList.flatMap escapeChar ++ ['"'])

mutual

def text : Json → String
  | null => "null"
  | bool true => "true"
  | bool false => "false"
  | num n => n.text
  | str s => stringText s
  | arr items => "[" ++ String.intercalate "," (itemTexts items) ++ "]"
  | obj members => "\x7b" ++ String.intercalate "," (memberTexts members) ++ "\x7d"

def itemTexts : List Json → List String
  | [] => []
  | x :: rest => x.text :: itemTexts rest

def memberTexts : List (String × Json) → List String
  | [] => []
  | (k, x) :: rest => (stringText k ++ ":" ++ x.text) :: memberTexts rest

end

end DesiredState.Json
