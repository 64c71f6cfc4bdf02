import DesiredState.Json.Printer
import DesiredState.Json.Reader
import DesiredState.Store.Address
import DesiredState.Store.Basic
import DesiredState.Store.Envelope
import DesiredState.Text.Quoted

/-!
A store behind a service that speaks HTTP.
Requests become calls on the resource of a kind, replies become documents, and
the statuses 404 and 409 are told from other failures. A request that cannot
be put into a call fails without one.
-/
namespace DesiredState.Http

inductive Method where
  | get | post | patch | delete
deriving DecidableEq, Repr

def Method.name : Method → String
  | .get => "GET"
  | .post => "POST"
  | .patch => "PATCH"
  | .delete => "DELETE"

structure Call where
  method : Method
  address : Address
  contentType? : Option String
  /-- The text of a document. -/
  body? : Option String
deriving DecidableEq, Repr

structure Reply where
  status : Nat
  text : String
deriving DecidableEq, Repr

/-- A failure by its code; without one the service was not even reached. -/
def classify (code? : Option Nat) (message : String) : Error :=
  match code? with
  | some 404 => .notFound message
  | some 409 => .conflict message
  | _ => .transport message

/-- The path of a collection below an interface, in a namespace if one is given. -/
def collection (interface : String) (ns? : Option String) (plural : String) : String :=
  let place := match ns? with
    | some ns => "/namespaces/" ++ ns
    | none => ""
  interface ++ place ++ "/" ++ plural

def kindPath (kind : Kind) (ns? : Option String) : String :=
  collection ("/apis/" ++ kind.group ++ "/" ++ kind.version) ns? kind.plural

/-- The objects whose warnings are asked for. -/
def selector (kind : Kind) (id : ObjectId) : String :=
  let place := match id.ns? with
    | some ns => ",involvedObject.namespace=" ++ ns
    | none => ""
  "involvedObject.kind=" ++ kind.name ++ ",involvedObject.name=" ++ id.name ++ ",type=Warning" ++
    place

def objectPath (kind : Kind) (id : ObjectId) : String := kindPath kind id.ns? ++ "/" ++ id.name

/-- A path with a query that asks for nothing yet. -/
def openQuery (path : String) : String := path ++ "?"

/-- The text of the address at which the warnings of an object are asked for. -/
def warningsTarget (kind : Kind) (id : ObjectId) : String :=
  let pair := Text.Percent.encodePair "fieldSelector".toList (selector kind id).toList
  openQuery (collection "/api/v1" id.ns? "events") ++ "&" ++ String.ofList pair

def address (target : String) : Except Error Address :=
  match Address.ofText? target with
  | some a => .ok a
  | none => .error (.transport ("no address: " ++ Text.quoted target))

def jsonType : String := "application/json"

/-- The body of a change and its content type. -/
def changeBody : Change → String × Json
  | .steps steps => ("application/json-patch+json", .arr (steps.map Patch.Step.document))
  | .merge v => ("application/strategic-merge-patch+json", v)

/-- The call that a request is made by. -/
def call : Request → Except Error Call
  | .create kind ns? object =>
    match Envelope.object? (.ofJson object) with
    | some v => do
      return ⟨.post, ← address (openQuery (kindPath kind ns?)), some jsonType, some v.text⟩
    | none => .error (.transport "decoding object for create")
  | .get kind id => do
    return ⟨.get, ← address (objectPath kind id), none, none⟩
  | .change kind id change => do
    let (contentType, body) := changeBody change
    return ⟨.patch, ← address (openQuery (objectPath kind id)), some contentType, some body.text⟩
  | .delete kind id => do
    let body := (Json.obj []).text
    return ⟨.delete, ← address (openQuery (objectPath kind id)), some jsonType, some body⟩
  | .warnings kind id => do
    return ⟨.get, ← address (warningsTarget kind id), none, none⟩

/-- The document of a reply, or the failure that its status tells of. -/
def document (r : Reply) : Except Error Json.Raw :=
  let found := Json.Raw.ofText? r.text
  if 400 ≤ r.status ∧ r.status < 600 then
    match found.bind Envelope.failure? with
    | some (code, message) => .error (classify (some code) message)
    | none => .error (classify (some r.status) (Text.quoted r.text))
  else
    match found with
    | some v => .ok v
    | none => .error (.transport "the reply is no document")

def unexpected : Error := .transport "the reply is of another form"

def warningOfEvent (v : Json) : Warning where
  reason := ((v.member? "reason").bind Json.asString?).getD ""
  message := ((v.member? "message").bind Json.asString?).getD ""
  lastSeen? := ["lastTimestamp", "eventTime", "firstTimestamp"].findSome?
    fun key => (v.member? key).bind Warning.timeOfDocument?
  count? := (v.member? "count").bind Json.asInt32?

def object (v : Json.Raw) : Except Error Json :=
  match Envelope.object? v with
  | some v => .ok v
  | none => .error unexpected

/-- What a reply says to a request. -/
def received : (r : Request) → Reply → Except Error r.Reply
  | .create .., reply | .get .., reply | .change .., reply => do object (← document reply)
  | .delete .., reply => do
    if Envelope.isDeletion (← document reply) then return () else .error unexpected
  | .warnings .., reply => do
    match Envelope.events? (← document reply) with
    | some events => return events.map warningOfEvent
    | none => .error unexpected

/-- The store behind a service that answers one call at a time. -/
def store {σ : Type} (serve : Call → σ → Reply × σ) : Store σ where
  answer r w :=
    match call r with
    | .error e => (.error e, w)
    | .ok c =>
      let (reply, w) := serve c w
      (received r reply, w)

end DesiredState.Http
