import DesiredState.Json.Containment
import DesiredState.Json.Pointer
import DesiredState.Kind.Plan
import DesiredState.Patch.Basic

/-!
The patch that leads from a previous document to a desired one along a plan.
Force-new rules give no operations, and neither do fields that the desired
document leaves to their owner.
-/
namespace DesiredState.Patch

/-- For a field that the store fills in, more than was asked for is no difference. -/
def differs (r : Rule) (desired previous : Json) : Bool :=
  if r.computed then !desired.containedIn previous else desired != previous

/-- Removals of the keys that are no longer desired. -/
def droppedKeys (r : Rule) (previous desired : List (String × Json)) : List Operation :=
  previous.filterMap fun (k, _) =>
    if Entries.contains desired k then none
    else if r.comparison = .perKeyUnmanaged ∧ isServerManaged k then none
    else some (remove (Pointer.member r.pointer k))

/-- Additions of the keys that are new or have a new value. -/
def changedKeys (r : Rule) (previous desired : List (String × Json)) : List Operation :=
  desired.filterMap fun (k, v) =>
    if Entries.get? previous k == some v then none
    else some (add (Pointer.member r.pointer k) v)

/-- Without a previous object the desired one is added whole, unless it is empty. -/
def keyOperations (r : Rule) (previous desired : Option Json) : List Operation :=
  match previous.bind Json.members?, desired.bind Json.members? with
  | some p, d => changedKeys r p (d.getD []) ++ droppedKeys r p (d.getD [])
  | none, some (e :: d) => [add r.pointer (.obj (e :: d))]
  | none, _ => []

/-- Replacements of the elements that differ; the first one has the given index. -/
def elementOperations (r : Rule) : Nat → List Json → List Json → List Operation
  | i, p :: ps, d :: ds =>
    let rest := elementOperations r (i + 1) ps ds
    if differs r d p then replace (Pointer.element r.pointer i) d :: rest else rest
  | _, _, _ => []

/-- Arrays of one length change element by element, everything else as a whole. -/
def replacements (r : Rule) (previous desired : Json) : List Operation :=
  match previous, desired with
  | .arr p, .arr d =>
    if p.length = d.length then elementOperations r 0 p d else [replace r.pointer (.arr d)]
  | _, d => [replace r.pointer d]

def wholeOperations (r : Rule) (previous desired : Option Json) : List Operation :=
  match previous, desired with
  | none, none => []
  | some _, none => if r.computed then [] else [remove r.pointer]
  | none, some d => [add r.pointer d]
  | some p, some d => if differs r d p then replacements r p d else []

def isOwned (r : Rule) (desired : Json) : Bool :=
  match r.owner? with
  | some owner => (desired.pointer? owner).isSome
  | none => false

def ruleOperations (r : Rule) (previous desired : Json) : List Operation :=
  if r.isForceNew || isOwned r desired then []
  else
    let p := previous.pointer? r.pointer
    let d := desired.pointer? r.pointer
    if r.comparison = .whole then wholeOperations r p d else keyOperations r p d

def between (previous desired : Json) (plan : Plan) : List Operation :=
  plan.flatMap (ruleOperations · previous desired)

/-- Whether a force-new field differs between two documents. -/
def needsReplacement (r : Rule) (previous desired : Json) : Bool :=
  match previous.pointer? r.pointer, desired.pointer? r.pointer with
  | none, none => false
  | some _, none => !r.computed
  | none, some _ => true
  | some p, some d => differs r d p

end DesiredState.Patch
