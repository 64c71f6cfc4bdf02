import DesiredState.Error
import DesiredState.Json.Basic
import DesiredState.Tree.Basic

/-!
Configuration trees from documents and back.
Numbers must be integers of 64 signed bits. A null is dropped as a member of
an object and an error anywhere else. Arrays become lists, so a set that goes
through a document comes back as the list of its strings.
-/
namespace DesiredState.Tree

mutual

def ofJson : Json → Except Error Tree
  | .null => .error (.validation .nullValue)
  | .bool b => .ok (.bool b)
  | .num n =>
    match (Json.num n).asInt64? with
    | some i => .ok (.int (Int64.ofInt i))
    | none => .error (.validation (.nonInteger n))
  | .str s => .ok (.str s)
  | .arr items => do return .list (← listOfJson items)
  | .obj members => do return .map (← entriesOfJson members)

def listOfJson : List Json → Except Error (List Tree)
  | [] => .ok []
  | x :: rest => do
    let t ← ofJson x
    return t :: (← listOfJson rest)

def entriesOfJson : List (String × Json) → Except Error (List (String × Tree))
  | [] => .ok []
  | (_, .null) :: rest => entriesOfJson rest
  | (k, x) :: rest => do
    let t ← ofJson x
    return (k, t) :: (← entriesOfJson rest)

end

mutual

def toJson : Tree → Json
  | str s => .str s
  | int i => .int i.toInt
  | bool b => .bool b
  | list items => .arr (listToJson items)
  | set items => .arr (items.map .str)
  | map entries => .obj (entriesToJson entries)

def listToJson : List Tree → List Json
  | [] => []
  | t :: rest => t.toJson :: listToJson rest

def entriesToJson : List (String × Tree) → List (String × Json)
  | [] => []
  | (k, t) :: rest => (k, t.toJson) :: entriesToJson rest

end

end DesiredState.Tree
