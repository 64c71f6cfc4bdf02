import DesiredState.Error
import DesiredState.Kind.Basic
import DesiredState.Schema.Decode
import DesiredState.Schema.Encode
import DesiredState.Schema.Expand
import DesiredState.Schema.Flatten

/-!
Typed objects of a kind.
An object is expanded from a configuration tree, flattened back to one,
encoded for the store and decoded from its replies. Objects of the scaled
kinds carry a counter that tells how far they are from being ready.
-/
namespace DesiredState

/-- The metadata of an object and its body. -/
abbrev Object (k : Kind) := k.fields.Value

/-- The ready count of an object on its way to the target. -/
structure ReadyCount where
  target : Int32
  ready : Int32
deriving DecidableEq, Repr

namespace Object

open Schema

variable {k : Kind}

def metadata (o : Object k) : Metadata := o.1

def withNamespace (o : Object k) (ns : String) : Object k := (Metadata.withNamespace o.1 ns, o.2)

/-- A namespaced object that names no namespace goes to the given one. -/
def placed (o : Object k) (ns : String) : Object k :=
  match k.scope with
  | .namespaced => o.withNamespace (o.metadata.ns?.getD ns)
  | .cluster => o

/-- The namespace of an object; cluster-wide objects have none whatever their metadata say. -/
def ns? (o : Object k) : Option String :=
  match k.scope with
  | .namespaced => o.metadata.ns?
  | .cluster => none

/-- Expanded metadata must give a name or what to generate one from. -/
def requireName (m : Metadata) : Checked Unit :=
  if m.name?.isNone && m.generateName?.isNone then .error ⟨["metadata", "0"], .unnamed⟩
  else .ok ()

/-- The metadata is checked, its name included, before the rest of the tree. -/
def expandEntries (k : Kind) (entries : List (String × Tree)) : Checked (Object k) := do
  let (m, ()) ← (Fields.cons Kind.metadataField (.block Schema.metadata) .nil).expand [] entries
  requireName m
  return (m, ← k.body.expand [] entries)

def expand? (k : Kind) : Tree → Checked (Object k)
  | .map entries => expandEntries k entries
  | t => Leaf.mismatch [] .map t

def expand (k : Kind) (t : Tree) : Except Error (Object k) :=
  (expand? k t).mapError (fun v => .validation (.tree v))

/-- The top-level keys of the flattened object. -/
def entries (o : Object k) : List (String × Tree) := k.fields.flatten o

def flatten (o : Object k) : Tree := .map o.entries

def encode (o : Object k) : Json := .obj (k.fields.encode o)

def decode? (k : Kind) (v : Json) : Option (Object k) := v.members?.bind k.fields.decode

/-- An object that a store answered with. -/
def decode (k : Kind) (v : Json) : Except Error (Object k) :=
  match decode? k v with
  | some o => .ok o
  | none => .error (.transport ("decoding " ++ k.name ++ " from store"))

/-- The identity of an object that a store knows. -/
def id (o : Object k) : Except Error ObjectId :=
  match o.metadata.name?, k.scope, o.metadata.ns? with
  | none, _, _ => .error (.validation (.nameless k.name))
  | some name, .cluster, _ => .ok ⟨none, name⟩
  | some name, .namespaced, some ns => .ok ⟨some ns, name⟩
  | some name, .namespaced, none => .error (.validation (.homeless k.name name))

/-- One replica is wanted unless said otherwise, and none is ready. -/
def readyCount (replicas ready : Option Int32) : ReadyCount :=
  ⟨replicas.getD 1, ready.getD 0⟩

/-- The wanted number of replicas of a scaled workload. -/
def replicas? : {k : Kind} → Object k → Option Int32
  | .deployment, o => o.2.1.bind (fun spec => spec.1)
  | .statefulSet, o => o.2.1.bind (fun spec => spec.2.1)
  | _, _ => none

def readyReplicas? : {k : Kind} → Object k → Option Int32
  | .deployment, o => o.2.2.1.bind (fun status => status.1)
  | .statefulSet, o => o.2.2.1.bind (fun status => status.1)
  | _, _ => none

def readiness (o : Object k) : Option ReadyCount :=
  match k with
  | .deployment | .statefulSet => some (readyCount o.replicas? o.readyReplicas?)
  | _ => none

/-- The label of a ready count while it is waited for; empty where nothing is counted. -/
def readyLabel (o : Object k) : String :=
  match o.readiness with
  | some count => Text.intText count.ready.toInt
  | none => ""

end Object

end DesiredState
