import DesiredState.Json.Basic
import DesiredState.Text.Numeral
import DesiredState.Text.Split

/-!
Pointers into a document.
The empty text points to the whole document; any other pointer is a sequence
of tokens, each after a slash. In a token `~1` stands for a slash and `~0` for
a tilde. A token selects a member of an object or, written without sign and
leading zero, an element of an array.
-/
namespace DesiredState

/-- Replaces each tilde that `digit` follows, together with the digit. -/
def Text.replaceTilde (digit replacement : Char) : List Char → List Char
  | [] => []
  | [c] => [c]
  | c :: d :: rest =>
    if c = '~' ∧ d = digit then replacement :: replaceTilde digit replacement rest
    else c :: replaceTilde digit replacement (d :: rest)

namespace Pointer

def escapeChar (c : Char) : List Char :=
  if c = '~' then ['~', '0'] else if c = '/' then ['~', '1'] else [c]

/-- The token that selects a member. -/
def escape (key : String) : String := String.ofList (key.toList.flatMap escapeChar)

def unescape (token : String) : String :=
  String.ofList (Text.replaceTilde '0' '~' (Text.replaceTilde '1' '/' token.toList))

/-- The pointer one token further. -/
def child (pointer token : String) : String := pointer ++ "/" ++ token

/-- The pointer to a member of the object at `pointer`. -/
def member (pointer key : String) : String := child pointer (escape key)

def element (pointer : String) (index : Nat) : String := child pointer index.repr

/-- The tokens of a pointer as they are written. -/
def rawTokens? (pointer : String) : Option (List String) :=
  match pointer.toList with
  | [] => some []
  | '/' :: rest => some ((Text.segments '/' rest).map String.ofList)
  | _ => none

def tokens? (pointer : String) : Option (List String) :=
  (rawTokens? pointer).map (·.map unescape)

def hasLeadingZero (token : String) : Bool :=
  match token.toList with
  | '0' :: _ :: _ => true
  | _ => false

/-- No bound is set: a numeral that no machine word holds lies past the end of every array. -/
def index? (token : String) : Option Nat :=
  if hasLeadingZero token then none else Text.digitsValue? token.toList

end Pointer

namespace Json

def step? (v : Json) (token : String) : Option Json :=
  match v with
  | obj members => Entries.get? members token
  | arr items => (Pointer.index? token).bind (items[·]?)
  | _ => none

def resolve? : List String → Json → Option Json
  | [], v => some v
  | token :: rest, v => (v.step? token).bind (resolve? rest)

/-- The value at a pointer. -/
def pointer? (v : Json) (pointer : String) : Option Json :=
  (Pointer.tokens? pointer).bind (resolve? · v)

theorem resolve?_append (first rest : List String) (v : Json) :
    resolve? (first ++ rest) v = (resolve? first v).bind (resolve? rest) := by
  induction first generalizing v with
  | nil => rfl
  | cons token tokens ih =>
    simp only [List.cons_append, resolve?, Option.bind_assoc]
    exact congrArg _ (funext ih)

theorem resolve?_singleton (key : String) (members : List (String × Json)) :
    resolve? [key] (.obj members) = Entries.get? members key := by
  simp [resolve?, step?]

theorem resolve?_cons (key : String) (path : List String) (members : List (String × Json)) :
    resolve? (key :: path) (.obj members) = (Entries.get? members key).bind (resolve? path) := rfl

theorem pointer?_eq {pointer : String} {tokens : List String}
    (h : Pointer.tokens? pointer = some tokens) (v : Json) :
    v.pointer? pointer = resolve? tokens v := by
  simp [pointer?, h]

end Json

end DesiredState
