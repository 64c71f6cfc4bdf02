import DesiredState.Schema.Shape

/-!
Reading a typed value out of a configuration tree.
Fields are checked in their order, and the first fault is reported with its
path. Keys that the schema does not know are passed over.
-/
namespace DesiredState.Schema

/-- What a presence makes of a value that was or was not found in a tree. -/
def Presence.settle {α : Type} (p : Presence) (found : Checked (Option α))
    (fallback : String → α) (missing : Tree.Violation) : Checked (p.Held α) :=
  match p with
  | .optional => found
  | .required => do
    match ← found with
    | some v => .ok v
    | none => .error missing
  | .expected => do
    match ← found with
    | some v => .ok (some v)
    | none => .error missing
  | .defaulted text => do return (← found).getD (fallback text)
  | .reported | .internal => .ok none

/-- The map of an at-most-one block with its path; an empty list counts as absent. -/
def readBlock (path : Path) : Tree → Checked (Option (Path × List (String × Tree)))
  | .list [] => .ok none
  | .list [.map entries] => .ok (some (path ++ ["0"], entries))
  | .list [t] => Leaf.mismatch (path ++ ["0"]) .map t
  | .list items => .error ⟨path, .tooManyBlocks items.length⟩
  | t => Leaf.mismatch path .list t

/-- The maps of a list with their paths; the first element has the given index. -/
def readItems (path : Path) : Nat → List Tree → Checked (List (Path × List (String × Tree)))
  | _, [] => .ok []
  | i, .map entries :: rest => do
    return (path ++ [i.repr], entries) :: (← readItems path (i + 1) rest)
  | i, t :: _ => Leaf.mismatch (path ++ [i.repr]) .map t

/-- Every element is a map before any of them is looked into. -/
def readBlocks (path : Path) : Tree → Checked (List (Path × List (String × Tree)))
  | .list items => readItems path 0 items
  | t => Leaf.mismatch path .list t

def expandEach {α : Type} (one : Path → List (String × Tree) → Checked α) :
    List (Path × List (String × Tree)) → Checked (List α)
  | [] => .ok []
  | (path, entries) :: rest => do
    let v ← one path entries
    return v :: (← expandEach one rest)

mutual

/-- The value of a subtree, or nothing for a block given as an empty list. -/
def Shape.expand : (s : Shape) → Path → Tree → Checked (Option s.Value)
  | .leaf l, path, t => (l.expand path t).map some
  | .block fields, path, t => do
    match ← readBlock path t with
    | some (path, entries) => return some (← fields.expand path entries)
    | none => return none
  | .blocks fields, path, t => do
    let items ← readBlocks path t
    return some (← expandEach fields.expand items)
  | .backend, path, t => do
    match ← readBlock path t with
    | some (path, entries) => return some (← Backend.expand path entries)
    | none => return none

def Fields.expand : (fields : Fields) → Path → List (String × Tree) → Checked fields.Value
  | .nil, _, _ => .ok ()
  | .typed _ _ rest, path, entries => rest.expand path entries
  | .cons field shape rest, path, entries => do
    let here := path ++ [field.key]
    let found := match Entries.get? entries field.key with
      | some t => shape.expand here t
      | none => .ok none
    let missing := ⟨here, if shape.isBlock then .missingBlock else .missing⟩
    let v ← field.presence.settle found shape.fallback missing
    return (v, ← rest.expand path entries)

end

end DesiredState.Schema
