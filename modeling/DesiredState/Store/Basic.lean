import DesiredState.Kind.Basic
import DesiredState.Patch.Basic
import DesiredState.Warning

/-!
Stores of objects.
A store answers requests, each with a reply of its own type or an error, and
changes its state in doing so. Objects pass as documents.
-/
namespace DesiredState

/-- A change to a stored object. -/
inductive Change where
  /-- Steps that apply as a whole or not at all. -/
  | steps (steps : List Patch.Step)
  /-- A whole object, merged into the stored one. -/
  | merge (object : Json)
deriving Repr

inductive Request where
  | create (kind : Kind) (ns? : Option String) (object : Json)
  | get (kind : Kind) (id : ObjectId)
  | change (kind : Kind) (id : ObjectId) (change : Change)
  | delete (kind : Kind) (id : ObjectId)
  | warnings (kind : Kind) (id : ObjectId)
deriving Repr

inductive Verb where
  | create | get | change | delete | warnings
deriving DecidableEq, Repr

namespace Request

def verb : Request → Verb
  | create .. => .create
  | get .. => .get
  | change .. => .change
  | delete .. => .delete
  | warnings .. => .warnings

def kind : Request → Kind
  | create k _ _ | get k _ | change k _ _ | delete k _ | warnings k _ => k

/-- The identity that a request is about, unless it makes a new object. -/
def id? : Request → Option ObjectId
  | create .. => none
  | get _ id | change _ id _ | delete _ id | warnings _ id => some id

/-- Whether a request may change what is stored. -/
def isWrite (r : Request) : Bool :=
  match r.verb with
  | .create | .change | .delete => true
  | .get | .warnings => false

@[reducible] def Reply : Request → Type
  | create .. | get .. | change .. => Json
  | delete .. => Unit
  | warnings .. => List Warning

end Request

structure Store (σ : Type) where
  answer : (r : Request) → σ → Except Error r.Reply × σ

/-- A state together with the requests made so far, the last one first. -/
structure Recorded (σ : Type) where
  state : σ
  requests : List Request

namespace Store

variable {σ : Type}

/-- The store that also records each request, before it is answered. -/
def recorded (s : Store σ) : Store (Recorded σ) where
  answer r w :=
    let (reply, state) := s.answer r w.state
    (reply, ⟨state, r :: w.requests⟩)

@[simp] theorem requests_answer_recorded (s : Store σ) (r : Request) (w : Recorded σ) :
    (s.recorded.answer r w).2.requests = r :: w.requests := rfl

end Store

end DesiredState
