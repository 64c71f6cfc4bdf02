import DesiredState.ObjectId
import DesiredState.Readiness.Wait

/-!
A scripted world for waits: a clock that moves only by sleeps and by the
script, refreshes that answer from the script in order, and a cancellation at
a chosen moment. It keeps count of what was done in it.
-/
namespace DesiredState.Script

/-- One refresh: how far the clock moves, in milliseconds, and what comes back. -/
structure Entry where
  advance : Int
  answer : Except Error String

/-- When the wait is cancelled; refreshes and sleeps are counted from one. -/
structure Cancellation where
  before : Bool
  inRefresh? : Option Nat
  inSleep? : Option Nat
deriving DecidableEq, Repr

def Cancellation.never : Cancellation := ⟨false, none, none⟩

structure World where
  /-- In nanoseconds. -/
  time : Int
  script : List Entry
  cancellation : Cancellation
  cancelled : Bool
  warnings : Except Error (List Warning)
  refreshes : Nat
  /-- The last one first. -/
  sleeps : List Duration
  /-- The kinds and identities whose warnings were asked for, the last one first. -/
  queries : List (String × ObjectId)

def World.start (script : List Entry) (cancellation : Cancellation)
    (warnings : Except Error (List Warning)) : World where
  time := 0
  script := script
  cancellation := cancellation
  cancelled := cancellation.before
  warnings := warnings
  refreshes := 0
  sleeps := []
  queries := []

def exhausted : Error := .transport "script exhausted"

/-- The number of the refresh and the label that the script gives it. -/
def refresh (w : World) : Except Error (Nat × String) × World :=
  let number := w.refreshes + 1
  let cancelled := w.cancelled || w.cancellation.inRefresh? == some number
  match w.script with
  | [] => (.error exhausted, { w with refreshes := number, cancelled })
  | entry :: script =>
    (entry.answer.map (number, ·),
      { w with time := w.time + entry.advance * 1000000, script, refreshes := number, cancelled })

def sleep (d : Duration) (w : World) : World :=
  let sleeps := d :: w.sleeps
  { w with
    time := w.time + d.nanoseconds
    sleeps
    cancelled := w.cancelled || w.cancellation.inSleep? == some sleeps.length }

def clock : Clock World := ⟨World.time, sleep, World.cancelled⟩

def query (kind : String) (id : ObjectId) (w : World) : Except Error (List Warning) × World :=
  (w.warnings, { w with queries := (kind, id) :: w.queries })

/-- Rounds enough for every script: each refresh uses up an entry or is the last. -/
def World.limit (w : World) : Nat := w.script.length + 1

def wait (goal : Goal) (backoff : Backoff) : Wait World Nat := ⟨clock, goal, backoff, refresh⟩

end DesiredState.Script
