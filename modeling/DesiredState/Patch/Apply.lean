import DesiredState.Json.Pointer
import DesiredState.Patch.Basic

/-!
Applying a patch to a document.
Every step must succeed. An addition sets a member or inserts an element, the
token `-` standing for the place after the last one; a removal and a
replacement need something to act on. The empty pointer stands for the whole
document, which can be replaced but not removed. Nothing can be moved below
itself.
-/
namespace DesiredState.Patch

/-- The index that the last token of an addition or removal names, below `limit`. -/
def lastIndex? (token : String) (limit : Nat) : Option Nat :=
  if Pointer.hasLeadingZero token then none
  else (Text.nat64? token).filter (· < limit)

/-- Replaces the value that a token selects by what `change` makes of it. -/
def changeChild (change : Json → Option Json) (token : String) : Json → Option Json
  | .obj members => do
    let v ← Entries.get? members token
    return .obj (Entries.insert token (← change v) members)
  | .arr items => do
    let i ← Pointer.index? token
    let v ← items[i]?
    return .arr (items.set i (← change v))
  | _ => none

/-- Changes the value at a path of tokens. -/
def changeAt (change : Json → Option Json) : List String → Json → Option Json
  | [], v => change v
  | token :: rest, v => changeChild (changeAt change rest) token v

/-- `raw` is the last token as it is written. -/
def addChild (raw : String) (value : Json) : Json → Option Json
  | .obj members => some (.obj (Entries.insert (Pointer.unescape raw) value members))
  | .arr items =>
    if raw = "-" then some (.arr (items ++ [value]))
    else (lastIndex? raw (items.length + 1)).map (fun i => .arr (items.insertIdx i value))
  | _ => none

def removeChild (raw : String) : Json → Option Json
  | .obj members =>
    let key := Pointer.unescape raw
    if Entries.contains members key then some (.obj (Entries.erase key members)) else none
  | .arr items => (lastIndex? raw items.length).map (fun i => .arr (items.eraseIdx i))
  | _ => none

def addAt (pointer : String) (value v : Json) : Option Json := do
  match ← Pointer.rawTokens? pointer with
  | [] => return value
  | raw :: rest =>
    let tokens := raw :: rest
    changeAt (addChild (tokens.getLastD "") value) (tokens.dropLast.map Pointer.unescape) v

def removeAt (pointer : String) (v : Json) : Option Json := do
  match ← Pointer.rawTokens? pointer with
  | [] => none
  | raw :: rest =>
    let tokens := raw :: rest
    changeAt (removeChild (tokens.getLastD "")) (tokens.dropLast.map Pointer.unescape) v

def Step.apply : Step → Json → Option Json
  | .add pointer value, v => addAt pointer value v
  | .remove pointer, v => removeAt pointer v
  | .replace pointer value, v => do
    changeAt (fun _ => some value) (← Pointer.tokens? pointer) v
  | .move source pointer, v => do
    if (source ++ "/").toList.isPrefixOf pointer.toList then none
    else addAt pointer (← v.pointer? source) (← removeAt source v)
  | .copy source pointer, v => do addAt pointer (← v.pointer? source) v
  | .test pointer value, v => do if (← v.pointer? pointer) == value then return v else none

/-- All steps in order, or nothing if one of them fails. -/
def applyAll (steps : List Step) (v : Json) : Option Json :=
  steps.foldlM (fun v s => s.apply v) v

end DesiredState.Patch
