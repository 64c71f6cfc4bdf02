import DesiredState.Json.Form

/-!
Envelopes of stored objects.
Every object has metadata of one form and, if it names its type, an interface
version and a kind together; the rest of an object passes as it is. Lists of
events and reports of failures have forms of their own.
-/
namespace DesiredState.Envelope

open Json

def optionalTexts (keys : List String) : List (String × Need × Form) :=
  keys.map fun key => (key, .optional, .text)

def filledTexts (keys : List String) : List (String × Need × Form) :=
  keys.map fun key => (key, .filled (.str ""), .text)

def nonNullTexts (keys : List String) : List (String × Need × Form) :=
  keys.map fun key => (key, .nonNull, .text)

def managedFields : Form := .record
  (optionalTexts ["apiVersion", "fieldsType", "manager", "operation", "subresource"] ++
    [("fieldsV1", .optional, .any), ("time", .optional, .time)])

def ownerReference : Form := .record
  (filledTexts ["apiVersion", "kind", "name", "uid"] ++
    [("blockOwnerDeletion", .optional, .flag), ("controller", .optional, .flag)])

def metadata : Form := .record
  (optionalTexts ["generateName", "name", "namespace", "resourceVersion", "selfLink", "uid"] ++
    [("annotations", .optional, .map .text), ("labels", .optional, .map .text),
     ("creationTimestamp", .optional, .time), ("deletionTimestamp", .optional, .time),
     ("deletionGracePeriodSeconds", .optional, .int64), ("generation", .optional, .int64),
     ("finalizers", .optional, .list .text), ("managedFields", .optional, .list managedFields),
     ("ownerReferences", .optional, .list ownerReference)])

def listMetadata : Form := .record
  (optionalTexts ["continue", "resourceVersion", "selfLink"] ++
    [("remainingItemCount", .optional, .int64)])

/-- How deep a member of an envelope may be. -/
def memberDepth : Nat := Raw.maxDepth - 1

/-- The only occurrence of a member of an envelope; the outer option tells of a second one. -/
def only? (members : List (String × Raw)) (key : String) : Option (Option Raw) :=
  match Raw.occurrences members key with
  | [] => some none
  | [v] => some (some v)
  | _ => none

/-- The members that an envelope has beside the known ones; all of them must have values. -/
def others? (known : List String) (members : List (String × Raw)) :
    Option (List (String × Json)) :=
  (members.filter fun m => !known.contains m.1).mapM fun m =>
    (m.2.value? memberDepth).map (m.1, ·)

/-- Takes the interface version and the kind out of the members, one after the other. They count
only together, and one that is no text or comes again ends the search. -/
def takeTypeNames (version? kind? : Option String) :
    List (String × Json) → Option (String × String) × List (String × Json)
  | [] => (do return (← version?, ← kind?), [])
  | (key, v) :: rest =>
    if key = "apiVersion" then
      match version?, v with
      | none, .str s => takeTypeNames (some s) kind? rest
      | _, _ => (none, rest)
    else if key = "kind" then
      match kind?, v with
      | none, .str s => takeTypeNames version? (some s) rest
      | _, _ => (none, rest)
    else
      let (names?, others) := takeTypeNames version? kind? rest
      (names?, (key, v) :: others)

def typeMembers : Option (String × String) → List (String × Json)
  | some (version, kind) => [("apiVersion", .str version), ("kind", .str kind)]
  | none => []

/-- The object as it is passed on; missing metadata count as empty. -/
def object? : Raw → Option Json
  | .obj members => do
    let members ← Raw.readable? members
    let given := (← only? members "metadata").getD (.obj [])
    let metadata ← metadata.normal? memberDepth given
    let (names?, others) := takeTypeNames none none (← others? ["metadata"] members)
    return .object (others ++ typeMembers names? ++ [("metadata", metadata)])
  | _ => none

/-- A report of a failure. -/
def failure : Form := .row [("status", .required, .text), ("message", .nonNull, .text),
  ("reason", .nonNull, .text), ("code", .required, .word 16)]

/-- The code and message of a report of a failure. -/
def failure? (v : Raw) : Option (Nat × String) := do
  let v ← failure.ofDocument? v
  let code ← (v.member? "code").bind Json.asInt?
  return (code.toNat, ((v.member? "message").bind Json.asString?).getD "")

/-- A report on a deletion that is not carried out at once. -/
def report : Form :=
  let cause : Form := .row (nonNullTexts ["reason", "message", "field"])
  let details : Form := .row (nonNullTexts ["name", "group", "kind", "uid"] ++
    [("causes", .nonNull, .list cause), ("retryAfterSeconds", .nonNull, .word 32)])
  .row [("status", .optional, .choice ["Success", "Failure"]), ("code", .nonNull, .word 16),
    ("message", .nonNull, .text), ("reason", .nonNull, .text), ("details", .optional, details)]

/-- Whether a reply tells of a deletion, by a report or the object. -/
def isDeletion (v : Raw) : Bool :=
  match v.value? Raw.maxDepth with
  | none => false
  | some value =>
    match (value.member? "kind").bind Json.asString? with
    | some "Status" => report.accepts v
    | _ => (object? v).isSome

def objectReference : Form := .record
  (optionalTexts ["apiVersion", "fieldPath", "kind", "name", "namespace", "resourceVersion",
    "uid"])

def event : Form := .record
  (optionalTexts ["action", "message", "reason", "reportingComponent", "reportingInstance",
    "type"] ++
    [("apiVersion", .nonNull, .oneOf ["v1"]), ("kind", .nonNull, .oneOf ["Event"]),
     ("metadata", .optional, metadata), ("involvedObject", .optional, objectReference),
     ("related", .optional, objectReference), ("count", .optional, .int32),
     ("eventTime", .optional, .moment), ("firstTimestamp", .optional, .moment),
     ("lastTimestamp", .optional, .moment),
     ("series", .optional,
       .record [("count", .optional, .int32), ("lastObservedTime", .optional, .moment)]),
     ("source", .optional, .record (optionalTexts ["component", "host"]))])

/-- The events of a list in their normal form; a null list is empty. -/
def events? : Raw → Option (List Json)
  | .obj members => do
    let members ← Raw.readable? members
    let _ ← others? ["metadata", "items"] members
    let _ ← listMetadata.normal? memberDepth (← (← only? members "metadata"))
    let items ← (← only? members "items")
    if items.isNull then return []
    else (← (Form.list event).normal? memberDepth items).items?
  | _ => none

end DesiredState.Envelope
