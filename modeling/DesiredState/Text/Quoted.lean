import DesiredState.Text.Extending
import DesiredState.Text.Unprintable

/-!
Text in double quotes for messages.
Quotes, backslashes and the usual controls get a short escape. A character
that does not show by itself is written as its code point in hexadecimal, so a
quoted text is printed on one line and can be told from every other.
-/
namespace DesiredState.Text

def codePointEscape (c : Char) : List Char :=
  ['\\', 'u', '\x7b'] ++ Nat.toDigits 16 c.toNat ++ ['\x7d']

def quotedChar (c : Char) : List Char :=
  if c = '"' then ['\\', '"']
  else if c = '\\' then ['\\', '\\']
  else if c = '\n' then ['\\', 'n']
  else if c = '\r' then ['\\', 'r']
  else if c = '\t' then ['\\', 't']
  else if c.toNat = 0 then ['\\', '0']
  else if isUnprintable c || isExtending c then codePointEscape c
  else [c]

def quoted (text : String) : String :=
  String.ofList ('"' :: text.toList.flatMap quotedChar ++ ['"'])

end DesiredState.Text
