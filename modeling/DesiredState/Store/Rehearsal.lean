import DesiredState.Readiness.Wait
import DesiredState.Store.Cluster

/-!
A cluster for rehearsals.
The next request of a verb can be made to fail or to be answered with a given
document; a failure goes first. Cancellation can come with a chosen read. The
clock moves only by sleeps.
-/
namespace DesiredState

structure Rehearsal where
  cluster : Cluster
  /-- The status that the next request of a verb fails with. -/
  faults : Verb → Option Nat
  /-- What the next request of a verb is answered with. -/
  replies : Verb → Option Json
  /-- In nanoseconds. -/
  time : Int
  reads : Nat
  /-- The read, counted from one, during which everything is cancelled. -/
  cancelOnRead? : Option Nat
  cancelled : Bool

namespace Rehearsal

def initial : Rehearsal where
  cluster := .empty
  faults := fun _ => none
  replies := fun _ => none
  time := 0
  reads := 0
  cancelOnRead? := none
  cancelled := false

def setFault (verb : Verb) (status? : Option Nat) (w : Rehearsal) : Rehearsal :=
  { w with faults := fun v => if v = verb then status? else w.faults v }

def setReply (verb : Verb) (reply? : Option Json) (w : Rehearsal) : Rehearsal :=
  { w with replies := fun v => if v = verb then reply? else w.replies v }

def failure (status : Nat) : Error :=
  if status = 404 then .notFound "status 404"
  else if status = 409 then .conflict "the object has been modified"
  else .transport ("status " ++ status.repr)

/-- Counts a read and cancels with the chosen one. -/
def noted (r : Request) (w : Rehearsal) : Rehearsal :=
  match r.verb with
  | .get =>
    let reads := w.reads + 1
    { w with reads, cancelled := w.cancelled || w.cancelOnRead? == some reads }
  | _ => w

/-- The reply that a given document stands for; warnings are never given. -/
def given? : (r : Request) → Json → Option r.Reply
  | .create .., v | .get .., v | .change .., v => some v
  | .delete .., _ => some ()
  | .warnings .., _ => none

def answer (r : Request) (w : Rehearsal) : Except Error r.Reply × Rehearsal :=
  let w := noted r w
  match w.faults r.verb with
  | some status => (.error (failure status), w.setFault r.verb none)
  | none =>
    match (w.replies r.verb).bind (given? r) with
    | some reply => (.ok reply, w.setReply r.verb none)
    | none =>
      let (reply, cluster) := Cluster.answer r w.cluster
      (reply, { w with cluster })

def store : Store Rehearsal := ⟨answer⟩

def clock : Clock Rehearsal where
  now := Rehearsal.time
  sleep d w := { w with time := w.time + d.nanoseconds }
  cancelled := Rehearsal.cancelled

end Rehearsal

end DesiredState
