import DesiredState.Json.Raw
import DesiredState.Time.Timestamp

/-!
Forms of documents.
A form says of which type a document is and, for an object, which members it
has. Unknown members pass unseen. The normal document of a form has the known
members only, without those that are optional and null.
-/
namespace DesiredState.Json

/-- What a missing or null member means. -/
inductive Need where
  | required
  | optional
  /-- May be missing but not null. -/
  | nonNull
  /-- Stands for the given document. -/
  | filled (blank : Json)

inductive Form where
  | any
  | text
  | oneOf (texts : List String)
  /-- A name, alone or as the key of a single null member. -/
  | choice (names : List String)
  /-- A whole number of so many bits. -/
  | word (bits : Nat)
  | int32
  | int64
  | flag
  /-- A point in time, normally in whole seconds. -/
  | time
  /-- A point in time, normally as exact as it is given. -/
  | moment
  | list (item : Form)
  | map (value : Form)
  /-- An object; each occurrence of a known member must have its form and the last one counts. -/
  | record (members : List (String × Need × Form))
  /-- An object that has each known member once at most, or the members' values in order. -/
  | row (members : List (String × Need × Form))

namespace Need

/-- The normal document of a missing member, if it has one; the outer option tells a fault. -/
def ofMissing? : Need → Option (Option Json)
  | required => none
  | optional | nonNull => some none
  | filled blank => some (some blank)

/-- The normal document of a member that is there, if it has one. -/
def ofGiven? (need : Need) (normal? : Raw → Option Json) (v : Raw) : Option (Option Json) :=
  match need with
  | required | nonNull => (normal? v).map some
  | optional => if v.isNull then some none else (normal? v).map some
  | filled blank => if v.isNull then some (some blank) else (normal? v).map some

/-- The normal document of a member from all its occurrences, of which the last one counts. -/
def ofOccurrences? (need : Need) (normal? : Raw → Option Json) (given : List Raw) :
    Option (Option Json) := do
  match (← given.mapM (need.ofGiven? normal?)).getLast? with
  | some found => return found
  | none => need.ofMissing?

end Need

namespace Form

def isWord (bits : Nat) (i : Int) : Bool := decide (0 ≤ i ∧ i < Nat.pow 2 bits)

def text? (v : Raw) : Option String := v.scalar?.bind Json.asString?

def timestamp? (v : Raw) : Option Timestamp := (text? v).bind Timestamp.ofText?

/-- The name that a document chooses. -/
def chosen? : Raw → Option String
  | .obj [(key?, .null)] => key?
  | v => text? v

mutual

/-- The normal document, if there are at most `depth` arrays and objects open at a time on the way
to what is known. -/
def normal? : Form → Nat → Raw → Option Json
  | any, depth, v => v.value? depth
  | text, _, v => (text? v).map .str
  | oneOf texts, _, v => ((text? v).filter texts.contains).map .str
  | choice names, _, v => ((chosen? v).filter names.contains).map .str
  | word bits, _, v => ((v.scalar?.bind Json.asInt?).filter (isWord bits)).map .int
  | int32, _, v => (v.scalar?.bind Json.asInt32?).map fun i => .int i.toInt
  | int64, _, v => (v.scalar?.bind Json.asInt64?).map .int
  | flag, _, .bool b => some (.bool b)
  | time, _, v => (timestamp? v).map fun t => .str t.shortText
  | moment, _, v => (timestamp? v).map fun t => .str t.text
  | list item, depth + 1, .arr items => (items.mapM (item.normal? depth)).map .arr
  | map value, depth + 1, .obj members => do
    let members ← Raw.readable? members
    return .object (← members.mapM fun m => (value.normal? depth m.2).map (m.1, ·))
  | record known, depth + 1, .obj members =>
    ((Raw.readable? members).bind (normalMembers? known false depth)).map .obj
  | row known, depth + 1, .obj members =>
    ((Raw.readable? members).bind (normalMembers? known true depth)).map .obj
  | row known, depth + 1, .arr items => (normalItems? known depth items).map .obj
  | _, _, _ => none

/-- The known members of an object; those of a row may occur once only. -/
def normalMembers? : List (String × Need × Form) → Bool → Nat → List (String × Raw) →
    Option (List (String × Json))
  | [], _, _, _ => some []
  | (key, need, form) :: rest, once, depth, given => do
    let others ← normalMembers? rest once depth given
    let occurrences := Raw.occurrences given key
    if once && decide (1 < occurrences.length) then none
    else
      let found ← need.ofOccurrences? (form.normal? depth) occurrences
      return Entries.insert? key found others

/-- The known members of a row that is written as an array. -/
def normalItems? : List (String × Need × Form) → Nat → List Raw → Option (List (String × Json))
  | [], _, [] => some []
  | [], _, _ :: _ => none
  | (key, need, form) :: rest, depth, given => do
    let others ← normalItems? rest depth given.tail
    let found ← need.ofOccurrences? (form.normal? depth) given.head?.toList
    return Entries.insert? key found others

end

/-- The normal document of a whole document. -/
def ofDocument? (form : Form) (v : Raw) : Option Json := form.normal? Raw.maxDepth v

def accepts (form : Form) (v : Raw) : Bool := (form.ofDocument? v).isSome

end Form

end DesiredState.Json
