import DesiredState.Kind.Object
import DesiredState.Readiness.Wait
import DesiredState.Resource
import DesiredState.Settings
import DesiredState.Store.Basic

/-!
The parts that reconciliation is made of.
An operation works on a session, which is one resource and the state of the
world that the store and the clock act on. It keeps what it did to the session
when it stops.
-/
namespace DesiredState

structure Session (σ : Type) where
  resource : Resource
  world : σ

abbrev Operation (σ α : Type) := ExceptT Stop (StateM (Session σ)) α

structure Reconciler (σ : Type) where
  store : Store σ
  clock : Clock σ
  settings : Settings
  /-- How many rounds a wait may take. -/
  patience : Nat

namespace Operation

variable {σ α : Type}

def resource : Operation σ Resource := do
  return (← get).resource

/-- Changes what is kept of the resource. -/
def keep (change : Resource → Resource) : Operation σ Unit :=
  modify fun s => { s with resource := change s.resource }

def require (result : Except Error α) : Operation σ α :=
  ExceptT.mk (pure (result.mapError .fault))

/-- Lets an action on the world alone take place. -/
def inWorld (action : σ → Except Stop α × σ) : Operation σ α :=
  ExceptT.mk fun s =>
    let (result, world) := action s.world
    (result, { s with world })

def send (store : Store σ) (r : Request) : Operation σ r.Reply :=
  inWorld fun w =>
    let (reply, w) := store.answer r w
    (reply.mapError .fault, w)

/-- The recorded identity, which must fit the scope of the kind. -/
def recordedId (k : Kind) : Operation σ ObjectId := do
  match (← resource).id? with
  | some text => require (ObjectId.decode k.scope text)
  | none => require (.error (.validation (.unrecorded k.name)))

end Operation

namespace Reconciler

variable {σ : Type}

open Operation

/-- The live object with an identity. -/
def fetch (r : Reconciler σ) (k : Kind) (id : ObjectId) : Operation σ (Object k) := do
  require (Object.decode k (← send r.store (.get k id)))

/-- The live object and its label, for a wait. -/
def observeLabel (r : Reconciler σ) (k : Kind) (id : ObjectId) (w : σ) :
    Except Error (Object k × String) × σ :=
  let (reply, w) := r.store.answer (.get k id) w
  (do
    let o ← Object.decode k (← reply)
    return (o, o.readyLabel), w)

def backoff (r : Reconciler σ) : Backoff :=
  ⟨r.settings.leastDelay, r.settings.greatestDelay⟩

/-- The wait until so many replicas are ready. -/
def readinessWait (r : Reconciler σ) (k : Kind) (id : ObjectId) (goal : Goal) :
    Wait σ (Object k) where
  clock := r.clock
  goal := goal
  backoff := r.backoff
  refresh := r.observeLabel k id

/-- Waits if the created object counts its replicas and its kind has a timeout. -/
def awaitReady (r : Reconciler σ) {k : Kind} (id : ObjectId) (created : Object k) :
    Operation σ Unit := do
  match created.readiness, r.settings.readinessTimeout k with
  | some count, some timeout =>
    let wait := r.readinessWait k id (.ofCount count.target timeout)
    let _ ← inWorld (wait.runExplained (r.store.answer (.warnings k id))
      r.settings.warningLimit r.patience)
  | _, _ => pure ()

end Reconciler

end DesiredState
