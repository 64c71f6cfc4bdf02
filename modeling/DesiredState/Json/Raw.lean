import DesiredState.Json.Basic

/-!
Documents as they are written.
Members keep their order and may repeat a key. A number beyond all bounds and
a text with half a surrogate pair can be written but not read: such a document
has no value, and a reader that passes over the place never notices. The value
also limits how many arrays and objects may be open at a time.
-/
namespace DesiredState.Json

inductive Raw where
  | null
  | bool (b : Bool)
  | num (n? : Option Number)
  | str (s? : Option String)
  | arr (items : List Raw)
  | obj (members : List (Option String × Raw))
deriving Repr, Inhabited

namespace Raw

/-- How many arrays and objects a value may have open at a time. -/
def maxDepth : Nat := 127

def isNull : Raw → Bool
  | null => true
  | _ => false

/-- Members in order, if every key is readable. -/
def readable? (members : List (Option String × Raw)) : Option (List (String × Raw)) :=
  members.mapM fun m => m.1.map (·, m.2)

/-- The values that a key is given, in order. -/
def occurrences (members : List (String × Raw)) (key : String) : List Raw :=
  (members.filter (·.1 == key)).map (·.2)

mutual

/-- The value, with at most `depth` open arrays and objects. -/
def value? : Raw → Nat → Option Json
  | null, _ => some .null
  | bool b, _ => some (.bool b)
  | num n?, _ => n?.map .num
  | str s?, _ => s?.map .str
  | arr _, 0 | obj _, 0 => none
  | arr items, depth + 1 => (values? items depth).map .arr
  | obj members, depth + 1 => (memberValues? members depth).map Json.object

def values? : List Raw → Nat → Option (List Json)
  | [], _ => some []
  | v :: rest, depth => do return (← v.value? depth) :: (← values? rest depth)

def memberValues? : List (Option String × Raw) → Nat → Option (List (String × Json))
  | [], _ => some []
  | (key?, v) :: rest, depth => do
    return (← key?, ← v.value? depth) :: (← memberValues? rest depth)

end

/-- The value of what is neither array nor object. -/
def scalar? (v : Raw) : Option Json := v.value? 0

mutual

def ofJson : Json → Raw
  | .null => null
  | .bool b => bool b
  | .num n => num (some n)
  | .str s => str (some s)
  | .arr items => arr (ofItems items)
  | .obj members => obj (ofMembers members)

def ofItems : List Json → List Raw
  | [] => []
  | v :: rest => ofJson v :: ofItems rest

def ofMembers : List (String × Json) → List (Option String × Raw)
  | [] => []
  | (key, v) :: rest => (some key, ofJson v) :: ofMembers rest

end

end Raw

end DesiredState.Json
