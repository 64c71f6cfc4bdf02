import DesiredState.Number.Basic
import DesiredState.ObjectId
import DesiredState.Text.Quoted
import DesiredState.Time.Duration
import DesiredState.Tree.Violation

/-!
What can go wrong between a desired state and a store, and how it is told.
Malformed input, a field that cannot change in place, a failing store call and
a readiness wait that ends badly are kept apart; only a missing object is ever
recovered from.
-/
namespace DesiredState

/-- Malformed input, found before anything is sent. -/
inductive Invalid where
  | malformedId (id : String) (scope : Scope)
  | tree (violation : Tree.Violation)
  | nameless (kind : String)
  | homeless (kind name : String)
  | unrecorded (kind : String)
  | valuelessOperation
  | nonInteger (n : Number)
  | nullValue
  | other (text : String)
deriving DecidableEq, Repr

inductive Error where
  | notFound (message : String)
  | conflict (message : String)
  | validation (reason : Invalid)
  /-- Some fields differ that only a new object can take over. -/
  | forceNew (kind : String) (fields : List String)
  /-- A readiness label outside the pending ones. -/
  | unexpectedState (label target : String)
  /-- `events` is rendered text, empty without events. -/
  | timeout (target : String) (last : Option String) (waited : Duration) (events : String)
  | cancelled (target : String)
  /-- A store failure that is neither a missing object nor a conflict. -/
  | transport (message : String)
deriving DecidableEq, Repr

namespace Invalid

def idForm : Scope → String
  | .namespaced => "namespace/name"
  | .cluster => "a bare name"

def message : Invalid → String
  | malformedId id scope =>
    "unexpected id format " ++ Text.quoted id ++ ": expected " ++ idForm scope
  | tree violation => violation.message
  | nameless kind => kind ++ " has no name"
  | homeless kind name => kind ++ " " ++ name ++ " has no namespace"
  | unrecorded kind => kind ++ ": no id recorded"
  | valuelessOperation => "encoding patch: missing field `value`"
  | nonInteger n => "non-integer number " ++ n.text ++ " in configuration"
  | nullValue => "null is not a configuration value"
  | other text => text

end Invalid

namespace Error

def message : Error → String
  | notFound m => "not_found: " ++ m
  | conflict m => "conflict: " ++ m
  | validation reason => "validation: " ++ reason.message
  | forceNew kind fields =>
    "force_new: " ++ kind ++ " cannot update " ++ String.intercalate ", " fields ++ " in place"
  | unexpectedState label target =>
    "unexpected state: observed " ++ Text.quoted label ++ " while waiting for " ++
      Text.quoted target
  | timeout target last waited events =>
    "timeout: waited " ++ waited.seconds.repr ++ "s for " ++ target ++ " (last observed " ++
      last.getD "nothing" ++ ")" ++ events
  | cancelled target => "cancelled while waiting for " ++ target
  | transport m => m

def isNotFound : Error → Bool
  | notFound _ => true
  | _ => false

def isTimeout : Error → Bool
  | timeout .. => true
  | _ => false

end Error

/-- An identity of the given scope from its text. -/
def ObjectId.decode (scope : Scope) (text : String) : Except Error ObjectId :=
  match ObjectId.ofText? scope text with
  | some id => .ok id
  | none => .error (.validation (.malformedId text scope))

end DesiredState
