import DesiredState.Json.Basic
import DesiredState.Text.Numeral
import DesiredState.Tree.Violation

/-!
Leaves of a schema: the values that have no fields of their own.
Each leaf has a form in a configuration tree and one in a document. Reading a
tree names the offending place; reading a document only succeeds or fails.
-/
namespace DesiredState.Schema

abbrev Path := List String

abbrev Checked (α : Type) := Except Tree.Violation α

/-- Strings under keys in increasing order. -/
structure TextMap where
  entries : List (String × String)
  sorted : Entries.Sorted entries := by exact Entries.sorted_nil
deriving DecidableEq, Repr

def TextMap.empty : TextMap := { entries := [] }

def TextMap.ofList (entries : List (String × String)) : TextMap :=
  ⟨Entries.ofList entries, Entries.sorted_ofList entries⟩

/-- A bound that is a count or, as a percentage is, a text. -/
inductive IntOrText where
  | int (i : Int32)
  | text (s : String)
deriving DecidableEq, Repr

/-- A text that is a numeral of 32 bits stands for its number. -/
def IntOrText.ofText (s : String) : IntOrText :=
  match Text.int32? s with
  | some i => .int i
  | none => .text s

def IntOrText.toText : IntOrText → String
  | .int i => Text.intText i.toInt
  | .text s => s

inductive Leaf where
  | text
  | int32
  | int64
  | flag
  | texts
  /-- A set in a tree, and in a document a list whose order means nothing. -/
  | textSet
  | textMap
  | intOrText
deriving DecidableEq, Repr

namespace Leaf

@[reducible] def Value : Leaf → Type
  | text => String
  | int32 => Int32
  | int64 => Int64
  | flag => Bool
  | texts | textSet => List String
  | textMap => TextMap
  | intOrText => IntOrText

/-- What a leaf holds that nothing was said about. -/
def blank : (l : Leaf) → l.Value
  | text => ""
  | int32 => 0
  | int64 => 0
  | flag => false
  | texts | textSet => []
  | textMap => TextMap.empty
  | intOrText => .int 0

def mismatch {α : Type} (path : Path) (wanted : Tree.Form) (found : Tree) : Checked α :=
  .error ⟨path, .mismatch wanted found.form⟩

/-- The strings of a list whose first element has the given index. -/
def expandTexts (path : Path) : Nat → List Tree → Checked (List String)
  | _, [] => .ok []
  | i, .str s :: rest => do return s :: (← expandTexts path (i + 1) rest)
  | i, t :: _ => mismatch (path ++ [i.repr]) .string t

def expandEntries (path : Path) : List (String × Tree) → Checked (List (String × String))
  | [] => .ok []
  | (k, .str s) :: rest => do return (k, s) :: (← expandEntries path rest)
  | (k, t) :: _ => mismatch (path ++ [k]) .string t

def expandInt32 (path : Path) (i : Int64) : Checked Int32 :=
  if Int32.minValue.toInt ≤ i.toInt ∧ i.toInt ≤ Int32.maxValue.toInt then
    .ok (Int32.ofInt i.toInt)
  else .error ⟨path, .outOfRange i⟩

def expand : (l : Leaf) → Path → Tree → Checked l.Value
  | text, _, .str s => .ok s
  | text, path, t => mismatch path .string t
  | int32, path, .int i => expandInt32 path i
  | int32, path, t => mismatch path .int t
  | int64, _, .int i => .ok i
  | int64, path, t => mismatch path .int t
  | flag, _, .bool b => .ok b
  | flag, path, t => mismatch path .bool t
  | texts, path, .list items => expandTexts path 0 items
  | texts, path, t => mismatch path .list t
  | textSet, _, .set items => .ok items
  | textSet, path, .list items => (expandTexts path 0 items).map Tree.sortedItems
  | textSet, path, t => mismatch path .set t
  | textMap, path, .map entries => (expandEntries path entries).map TextMap.ofList
  | textMap, path, t => mismatch path .map t
  | intOrText, _, .str s => .ok (IntOrText.ofText s)
  | intOrText, path, t => mismatch path .string t

def flatten : (l : Leaf) → l.Value → Tree
  | text, s => .str s
  | int32, i => .int i.toInt64
  | int64, i => .int i
  | flag, b => .bool b
  | texts, items => Tree.strings items
  | textSet, items => Tree.setOf items
  | textMap, m => .map (Entries.map .str m.entries)
  | intOrText, v => .str v.toText

def encode : (l : Leaf) → l.Value → Json
  | text, s => .str s
  | int32, i => .int i.toInt
  | int64, i => .int i.toInt
  | flag, b => .bool b
  | texts, items | textSet, items => .arr (items.map .str)
  | textMap, m => .obj (Entries.map .str m.entries)
  | intOrText, .int i => .int i.toInt
  | intOrText, .text s => .str s

def decodeTexts (v : Json) : Option (List String) :=
  v.items?.bind (·.mapM Json.asString?)

def decodeEntry (e : String × Json) : Option (String × String) :=
  e.2.asString?.map (fun s => (e.1, s))

def decode : (l : Leaf) → Json → Option l.Value
  | text, v => v.asString?
  | int32, v => v.asInt32?
  | int64, v => v.asInt64?.map Int64.ofInt
  | flag, .bool b => some b
  | flag, _ => none
  | texts, v | textSet, v => decodeTexts v
  | textMap, v => (v.members?.bind (·.mapM decodeEntry)).map TextMap.ofList
  | intOrText, .str s => some (.text s)
  | intOrText, v => v.asInt32?.map .int

end Leaf

end DesiredState.Schema
