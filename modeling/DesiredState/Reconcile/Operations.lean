import DesiredState.Patch.Configuration
import DesiredState.Reconcile.Basic

/-!
Reconciliation of one resource with the store.
Each operation but `probe` writes what it learned into the resource. A changed
field that only a new object can take over stops an update before anything is
sent. The first fault ends an operation; nothing is tried twice.
-/
namespace DesiredState.Reconciler

variable {σ : Type}

open Operation

/-- Takes over the live state of the recorded object. -/
def read (r : Reconciler σ) (k : Kind) : Operation σ Unit := do
  let id ← recordedId k
  let live ← r.fetch k id
  keep (·.refresh live.entries)

/-- Makes the desired object, records its identity, waits until it is ready and reads it. -/
def create (r : Reconciler σ) (k : Kind) : Operation σ Unit := do
  let desired ← require (Object.expand k (← resource).desired)
  let object := desired.placed r.settings.defaultNamespace
  let reply ← send r.store (.create k object.ns? object.encode)
  let created ← require (Object.decode k reply)
  let id ← require created.id
  keep (·.setId (some id.text))
  r.awaitReady id created
  r.read k

/-- The change that an update sends, unless there is nothing to change. -/
def pendingChange (k : Kind) (id : ObjectId) (resource : Resource) :
    Except Error (Option Change) := do
  match k.updateMode with
  | .patch =>
    let patch ← Patch.betweenTrees k resource.observed resource.desired
    if patch.isEmpty then return none
    else return some (.steps (← Patch.toSteps patch))
  | .resubmit =>
    let object ← Object.expand k resource.desired
    let object := match id.ns? with
      | some ns => object.withNamespace ns
      | none => object
    return some (.merge object.encode)

/-- Brings the live object to the desired state in place. -/
def update (r : Reconciler σ) (k : Kind) : Operation σ Unit := do
  let id ← recordedId k
  if (← resource).seen.isEmpty then r.read k
  let fields ← require (Patch.replacedFields k (← resource))
  if fields ≠ [] then require (.error (.forceNew k.name fields))
  match ← require (pendingChange k id (← resource)) with
  | some change =>
    let _ ← send r.store (.change k id change)
  | none => pure ()
  r.read k

/-- Removes the object and forgets its identity. -/
def delete (r : Reconciler σ) (k : Kind) : Operation σ Unit := do
  let id ← recordedId k
  send r.store (.delete k id)
  keep (·.setId none)

/-- Whether the recorded object is there; only its absence is no fault. -/
def probe (r : Reconciler σ) (k : Kind) : Operation σ Bool := do
  let id ← recordedId k
  inWorld fun w =>
    match r.store.answer (.get k id) w with
    | (.ok _, w) => (.ok true, w)
    | (.error e, w) => (if e.isNotFound then .ok false else .error (.fault e), w)

/-- Takes over an object by the text of its identity, which is dropped if it cannot be read. -/
def adopt (r : Reconciler σ) (k : Kind) (text : String) : Operation σ Unit := do
  let id ← require (ObjectId.decode k.scope text)
  keep (·.setId (some id.text))
  tryCatch (r.read k) fun stop => do
    keep (·.setId none)
    throw stop

end DesiredState.Reconciler
