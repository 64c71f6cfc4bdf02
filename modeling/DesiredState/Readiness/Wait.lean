import DesiredState.Error
import DesiredState.Readiness.Goal
import DesiredState.Warning

/-!
Waiting for readiness.
A wait is a sequence of rounds; each refreshes the object once and looks at
its label, in this order: a failed refresh, the target, a label that is not
pending, and the timeout end the wait. Cancellation is looked at before a
refresh and before a sleep. A sleep is never longer than the time left.
-/
namespace DesiredState

/-- The time, sleeping and cancellation as functions of a state of the world. -/
structure Clock (σ : Type) where
  /-- In nanoseconds; it may go back. -/
  now : σ → Int
  sleep : Duration → σ → σ
  cancelled : σ → Bool

/-- Why there is no result: a fault, or a wait that was not given enough rounds. -/
inductive Stop where
  | fault (error : Error)
  | undecided
deriving DecidableEq, Repr

/-- What one round leads to. -/
inductive Progress (σ α : Type) where
  | again (delay : Duration) (world : σ)
  | done (result : Except Error α) (world : σ)

structure Wait (σ α : Type) where
  clock : Clock σ
  goal : Goal
  backoff : Backoff
  /-- An object and its label. -/
  refresh : σ → Except Error (α × String) × σ

namespace Wait

variable {σ α : Type}

/-- The round after a refresh, `elapsed` after the start of the wait. -/
def judge (p : Wait σ α) (object : α) (label : String) (elapsed delay : Duration) (world : σ) :
    Progress σ α :=
  if label = p.goal.target then .done (.ok object) world
  else if label ∉ p.goal.pending then
    .done (.error (.unexpectedState label p.goal.target)) world
  else if p.goal.timeout ≤ elapsed then
    .done (.error (.timeout p.goal.target (some label) elapsed "")) world
  else if p.clock.cancelled world then .done (.error (.cancelled p.goal.target)) world
  else
    .again (p.backoff.next delay)
      (p.clock.sleep (delay.least (p.goal.timeout.minus elapsed)) world)

def round (p : Wait σ α) (start : Int) (delay : Duration) (world : σ) : Progress σ α :=
  if p.clock.cancelled world then .done (.error (.cancelled p.goal.target)) world
  else
    match p.refresh world with
    | (.error e, world) => .done (.error e) world
    | (.ok (object, label), world) =>
      p.judge object label (.between start (p.clock.now world)) delay world

/-- At most the given number of rounds. -/
def rounds (p : Wait σ α) (start : Int) : Nat → Duration → σ → Except Stop α × σ
  | 0, _, world => (.error .undecided, world)
  | more + 1, delay, world =>
    match p.round start delay world with
    | .again delay world => p.rounds start more delay world
    | .done result world => (result.mapError .fault, world)

def run (p : Wait σ α) (limit : Nat) (world : σ) : Except Stop α × σ :=
  p.rounds (p.clock.now world) limit p.backoff.least world

/-- A timeout tells of the most recent warnings; if they cannot be had, that is the error. -/
def runExplained (p : Wait σ α) (query : σ → Except Error (List Warning) × σ)
    (warningLimit limit : Nat) (world : σ) : Except Stop α × σ :=
  match p.run limit world with
  | (.error (.fault (.timeout target last waited _)), world) =>
    match query world with
    | (.ok warnings, world) =>
      (.error (.fault (.timeout target last waited
        (Warning.report (Warning.recent warnings warningLimit)))), world)
    | (.error e, world) => (.error (.fault e), world)
  | ended => ended

end Wait

end DesiredState
