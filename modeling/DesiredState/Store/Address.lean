import DesiredState.Text.Percent

/-!
Addresses of calls.
The text of an address is a path, a question mark with a query, and a number
sign with a fragment that no one reads; the first of the two marks decides.
Path and query hold characters beyond the blank other than a few reserved
ones, and the text as a whole is bounded.
-/
namespace DesiredState.Http

structure Address where
  path : String
  /-- Names with their values, in the order they are written. -/
  query : List (String × String)
deriving DecidableEq, Repr

namespace Address

/-- The greatest size in octets. -/
def maxSize : Nat := 65534

/-- Whether a character is none of the first controls and no blank. -/
def isBeyondBlank (c : Char) : Bool := decide (' ' < c)

def isPathChar (c : Char) : Bool := isBeyondBlank c && !("#<>?`".toList.contains c)

def isQueryChar (c : Char) : Bool := isBeyondBlank c && !("\"#<>".toList.contains c)

/-- The text before the query and the fragment. -/
def pathPart (text : List Char) : List Char := text.takeWhile fun c => c ≠ '?' ∧ c ≠ '#'

/-- The text after the first question mark, up to the fragment. -/
def queryPart (text : List Char) : List Char :=
  match text.drop (pathPart text).length with
  | '?' :: rest => rest.takeWhile (· ≠ '#')
  | _ => []

/-- Nothing if the text is too long or holds a character out of place. -/
def ofText? (text : String) : Option Address :=
  let path := pathPart text.toList
  let query := queryPart text.toList
  if text.utf8ByteSize ≤ maxSize ∧ path.all isPathChar ∧ query.all isQueryChar then
    some ⟨String.ofList path, Text.Percent.decodePairs query⟩
  else none

end Address

end DesiredState.Http
