import DesiredState.Tree.Path

/-!
What is kept of one resource between operations: the identity recorded for it,
the tree it should have, and what was last seen of it, by top-level key.
Dropping the identity drops what was seen with it.
-/
namespace DesiredState

structure Resource where
  id? : Option String
  desired : Tree
  seen : List (String × Tree)
  sorted : Entries.Sorted seen := by exact Entries.sorted_nil
deriving Repr

namespace Resource

def ofDesired (desired : Tree) : Resource := { id? := none, desired, seen := [] }

def initial : Resource := ofDesired .empty

/-- A resource that exists already and was not looked at yet. -/
def ofId (id : String) : Resource := { id? := some id, desired := .empty, seen := [] }

/-- The tree that was last seen. -/
def observed (r : Resource) : Tree := .map r.seen

def setId (r : Resource) (id? : Option String) : Resource :=
  match id? with
  | some id => { r with id? := some id }
  | none => ofDesired r.desired

def setDesired (r : Resource) (desired : Tree) : Resource := { r with desired }

/-- Takes what was seen as what should be. -/
def commit (r : Resource) : Resource := { r with desired := r.observed }

/-- Records a key that was seen. -/
def observe (r : Resource) (key : String) (value : Tree) : Resource :=
  { r with
    seen := Entries.insert key value r.seen
    sorted := Entries.sorted_insert key value r.sorted }

/-- Drops a key that is no longer there. -/
def forget (r : Resource) (key : String) : Resource :=
  { r with
    seen := Entries.erase key r.seen
    sorted := Entries.sorted_erase key r.sorted }

/-- The keys that were seen before and are not among the given entries. -/
def staleKeys (r : Resource) (entries : List (String × Tree)) : List String :=
  (r.seen.map Prod.fst).filter (fun key => !Entries.contains entries key)

/-- Drops the stale keys and records the given entries. -/
def refresh (r : Resource) (entries : List (String × Tree)) : Resource :=
  entries.foldl (fun r e => r.observe e.1 e.2) ((r.staleKeys entries).foldl forget r)

def get? (r : Resource) (path : String) : Option Tree := r.desired.lookup? path

def prior? (r : Resource) (path : String) : Option Tree := r.observed.lookup? path

def hasChange (r : Resource) (path : String) : Bool := r.get? path ≠ r.prior? path

end Resource

end DesiredState
