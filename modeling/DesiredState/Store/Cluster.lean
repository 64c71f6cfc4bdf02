import DesiredState.Patch.Apply
import DesiredState.Patch.Merge
import DesiredState.Store.Basic

/-!
A cluster in memory.
Objects are kept by kind, namespace and name. A new object gets its name, an
identity and its first version; every change makes the next version. Reading a
scaled workload reports how many of its replicas are ready, by default all of
them.
-/
namespace DesiredState

structure Cluster.Key where
  kind : Kind
  ns? : Option String
  name : String
deriving DecidableEq, Repr

structure Cluster where
  objects : Cluster.Key → Option Json
  /-- The ready counts that the next reads report, as they are written; null leaves one out. -/
  ready : List Json
  warnings : List Warning

namespace Cluster

def empty : Cluster := ⟨fun _ => none, [], []⟩

def Key.ofId (kind : Kind) (id : ObjectId) : Key := ⟨kind, id.ns?, id.name⟩

def put (c : Cluster) (key : Key) (object : Json) : Cluster :=
  { c with objects := fun k => if k = key then some object else c.objects k }

def remove (c : Cluster) (key : Key) : Cluster :=
  { c with objects := fun k => if k = key then none else c.objects k }

def metadata? (object : Json) (key : String) : Option Json :=
  (object.member? "metadata").bind (·.member? key)

/-- The name that a new object gets; a generated one has a fixed ending. -/
def nameOf (object : Json) : String :=
  match (metadata? object "name").bind Json.asString? with
  | some name => name
  | none => (((metadata? object "generateName").bind Json.asString?).getD "") ++ "x7k2q"

def setMetadata (key : String) (value : Json) (object : Json) : Json :=
  object.setAt ["metadata", key] value

/-- A new object as it is stored. -/
def admitted (ns? : Option String) (object : Json) : Json :=
  let name := nameOf object
  let named := setMetadata "name" (.str name) object
  let placed := match ns? with
    | some ns => setMetadata "namespace" (.str ns) named
    | none => named
  setMetadata "resourceVersion" (.str "1") (setMetadata "uid" (.str ("uid-" ++ name)) placed)

/-- The version after the one an object has; an unreadable version counts as zero. -/
def nextVersion (object : Json) : Nat :=
  (((metadata? object "resourceVersion").bind Json.asString?).bind Text.nat64?).getD 0 + 1

def bumped (object : Json) : Json :=
  setMetadata "resourceVersion" (.str (nextVersion object).repr) object

/-- The replicas that an object asks for, one unless it says. -/
def wantedReplicas (object : Json) : Int :=
  (((object.member? "spec").bind (·.member? "replicas")).bind Json.asInt64?).getD 1

def withStatus (ready : Json) (object : Json) : Json :=
  let counted := [("replicas", Json.int 0)]
  object.setMember "status"
    (.obj (if ready.isNull then counted else Entries.insert "readyReplicas" ready counted))

def isScaled : Kind → Bool
  | .deployment | .statefulSet => true
  | _ => false

/-- An object as it is read. -/
def shown (c : Cluster) (kind : Kind) (object : Json) : Json × Cluster :=
  if isScaled kind then
    match c.ready with
    | ready :: rest => (withStatus ready object, { c with ready := rest })
    | [] => (withStatus (.int (wantedReplicas object)) object, c)
  else (object, c)

def applyChange (object : Json) : Change → Except Error Json
  | .steps steps =>
    match Patch.applyAll steps object with
    | some v => .ok (bumped v)
    | none => .error (.transport "patch failed")
  | .merge v => .ok (bumped (object.merge v))

def answer : (r : Request) → Cluster → Except Error r.Reply × Cluster
  | .create kind ns? object, c =>
    let name := nameOf object
    let key : Key := ⟨kind, ns?, name⟩
    match c.objects key with
    | some _ => (.error (.conflict (name ++ " already exists")), c)
    | none =>
      let stored := admitted ns? object
      (.ok stored, c.put key stored)
  | .get kind id, c =>
    match c.objects (.ofId kind id) with
    | some object =>
      let (v, c) := c.shown kind object
      (.ok v, c)
    | none => (.error (.notFound (kind.name ++ " " ++ id.text ++ " not found")), c)
  | .change kind id change, c =>
    let key := Key.ofId kind id
    match c.objects key with
    | some object =>
      match applyChange object change with
      | .ok v => (.ok v, c.put key v)
      | .error e => (.error e, c)
    | none => (.error (.notFound id.text), c)
  | .delete kind id, c =>
    let key := Key.ofId kind id
    match c.objects key with
    | some _ => (.ok (), c.remove key)
    | none => (.error (.notFound id.text), c)
  | .warnings _ _, c => (.ok c.warnings, c)

def store : Store Cluster := ⟨answer⟩

theorem objects_put (c : Cluster) (key other : Key) (object : Json) :
    (c.put key object).objects other = if other = key then some object else c.objects other := rfl

theorem objects_remove (c : Cluster) (key other : Key) :
    (c.remove key).objects other = if other = key then none else c.objects other := rfl

end Cluster

end DesiredState
