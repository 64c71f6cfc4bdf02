import DesiredState.Json.Basic
import DesiredState.Time.Timestamp

/-!
Warnings that a store holds against an object.
The most recent ones are told first and those without a time last; warnings of
one time keep the order they came in.
-/
namespace DesiredState

structure Warning where
  reason : String
  message : String
  lastSeen? : Option Timestamp
  count? : Option Int32
deriving DecidableEq, Repr

namespace Warning

/-- A warning with a time is newer than one without. -/
def newer (a b : Warning) : Bool :=
  match a.lastSeen?, b.lastSeen? with
  | some s, some t => t.before s
  | some _, none => true
  | none, _ => false

def newestFirst (warnings : List Warning) : List Warning :=
  warnings.mergeSort (fun a b => !b.newer a)

def line (w : Warning) : String :=
  let told := w.reason ++ ": " ++ w.message
  match w.lastSeen? with
  | some t => t.shortText ++ " " ++ told
  | none => told

/-- The lines of the most recent warnings, at most `limit` of them. -/
def recent (warnings : List Warning) (limit : Nat) : List String :=
  ((newestFirst warnings).take limit).map line

/-- What a timeout says of the warnings; nothing without any. -/
def report (lines : List String) : String :=
  if lines.isEmpty then ""
  else "\n\nMost recent warning events:" ++ String.join (lines.map ("\n\t" ++ ·))

/-- A point in time from its document. -/
def timeOfDocument? (v : Json) : Option Timestamp := v.asString?.bind Timestamp.ofText?

/-- A warning from the documents of its parts; time and count may be null. -/
def ofParts? (reason message lastSeen count : Json) : Option Warning := do
  return {
    reason := ← reason.asString?
    message := ← message.asString?
    lastSeen? := ← lastSeen.readUnlessNull timeOfDocument?
    count? := ← count.readUnlessNull Json.asInt32? }

/-- A warning from its document: its parts in order, or as members, of which time and count may
be missing. -/
def ofDocument? : Json → Option Warning
  | .arr [reason, message, lastSeen, count] => ofParts? reason message lastSeen count
  | .obj members => do
    let optional (key : String) := (Entries.get? members key).getD .null
    ofParts? (← Entries.get? members "reason") (← Entries.get? members "message")
      (optional "last_seen") (optional "count")
  | _ => none

end Warning

end DesiredState
