import DesiredState.Error
import DesiredState.Json.Basic

/-!
Patches: operations on a document, in order.
An operation as it is collected may lack the value that an addition or
replacement needs; one that is sent cannot. Sending a patch fails as a whole
or keeps every operation.
-/
namespace DesiredState.Patch

inductive Action where
  | add
  | remove
  | replace
deriving DecidableEq, Repr

structure Operation where
  action : Action
  pointer : String
  value? : Option Json
deriving Repr

def add (pointer : String) (value : Json) : Operation := ⟨.add, pointer, some value⟩

def remove (pointer : String) : Operation := ⟨.remove, pointer, none⟩

def replace (pointer : String) (value : Json) : Operation := ⟨.replace, pointer, some value⟩

structure Summary where
  adds : Nat
  updates : Nat
  removes : Nat
deriving DecidableEq, Repr

def count (action : Action) (patch : List Operation) : Nat :=
  patch.countP (·.action == action)

def summary (patch : List Operation) : Summary :=
  ⟨count .add patch, count .replace patch, count .remove patch⟩

/-- An operation in the form that is sent. -/
inductive Step where
  | add (pointer : String) (value : Json)
  | remove (pointer : String)
  | replace (pointer : String) (value : Json)
  | move (source pointer : String)
  | copy (source pointer : String)
  /-- Changes nothing and fails unless the value is there. -/
  | test (pointer : String) (value : Json)
deriving Repr

def Operation.toStep? : Operation → Option Step
  | ⟨.add, pointer, some v⟩ => some (.add pointer v)
  | ⟨.replace, pointer, some v⟩ => some (.replace pointer v)
  | ⟨.remove, pointer, _⟩ => some (.remove pointer)
  | ⟨.add, _, none⟩ | ⟨.replace, _, none⟩ => none

def toSteps (patch : List Operation) : Except Error (List Step) :=
  match patch.mapM Operation.toStep? with
  | some steps => .ok steps
  | none => .error (.validation .valuelessOperation)

def Step.document : Step → Json
  | .add pointer v => .object [("op", .str "add"), ("path", .str pointer), ("value", v)]
  | .remove pointer => .object [("op", .str "remove"), ("path", .str pointer)]
  | .replace pointer v => .object [("op", .str "replace"), ("path", .str pointer), ("value", v)]
  | .move source pointer =>
    .object [("op", .str "move"), ("from", .str source), ("path", .str pointer)]
  | .copy source pointer =>
    .object [("op", .str "copy"), ("from", .str source), ("path", .str pointer)]
  | .test pointer v => .object [("op", .str "test"), ("path", .str pointer), ("value", v)]

def Action.name : Action → String
  | add => "add"
  | remove => "remove"
  | replace => "replace"

/-- Only a value that is there is written, and it is written even if it is null. -/
def Operation.document : Operation → Json
  | ⟨action, pointer, some v⟩ =>
    .object [("op", .str action.name), ("path", .str pointer), ("value", v)]
  | ⟨action, pointer, none⟩ => .object [("op", .str action.name), ("path", .str pointer)]

def Action.ofName? : String → Option Action
  | "add" => some .add
  | "remove" => some .remove
  | "replace" => some .replace
  | _ => none

/-- An action from its name, alone or as the key of a single null member. -/
def Action.ofDocument? : Json → Option Action
  | .str name | .obj [(name, .null)] => ofName? name
  | _ => none

/-- An operation from the documents of its parts; a null value counts as missing. -/
def Operation.ofParts? (action pointer value : Json) : Option Operation := do
  return ⟨← Action.ofDocument? action, ← pointer.asString?, ← value.readUnlessNull some⟩

/-- An operation from its document: its parts in order or as members, the value last or missing. -/
def Operation.ofDocument? : Json → Option Operation
  | .arr [action, pointer] => ofParts? action pointer .null
  | .arr [action, pointer, value] => ofParts? action pointer value
  | .obj members => do
    ofParts? (← Entries.get? members "op") (← Entries.get? members "path")
      ((Entries.get? members "value").getD .null)
  | _ => none

/-- A step from its name and its other parts; an addition of null has a value. -/
def Step.ofParts? (name : String) (part? : String → Option Json) : Option Step := do
  let pointer ← (← part? "path").asString?
  match name with
  | "add" => return .add pointer (← part? "value")
  | "remove" => return .remove pointer
  | "replace" => return .replace pointer (← part? "value")
  | "move" => return .move (← (← part? "from").asString?) pointer
  | "copy" => return .copy (← (← part? "from").asString?) pointer
  | "test" => return .test pointer (← part? "value")
  | _ => none

/-- The parts of a step beside its name, in order. -/
def Step.partNames : String → List String
  | "add" | "replace" | "test" => ["path", "value"]
  | "remove" => ["path"]
  | "move" | "copy" => ["from", "path"]
  | _ => []

/-- A step from its document: its name and its parts in order or as members. -/
def Step.ofDocument? : Json → Option Step
  | .arr (.str name :: parts) =>
    let names := partNames name
    if parts.length = names.length then ofParts? name (Entries.get? (names.zip parts)) else none
  | .obj members => do
    ofParts? (← (← Entries.get? members "op").asString?) (Entries.get? members)
  | _ => none

end DesiredState.Patch
