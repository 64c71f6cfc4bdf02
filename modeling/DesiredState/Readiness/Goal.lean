import DesiredState.Text.Numeral
import DesiredState.Time.Duration

/-!
What a wait for readiness is for, and how its delays grow.
A label moves through the pending ones until it is the target. Delays double
between a least and a greatest one; a greatest delay below the least one
counts as the least.
-/
namespace DesiredState

structure Goal where
  /-- In increasing order. -/
  pending : List String
  target : String
  timeout : Duration
deriving DecidableEq, Repr

/-- A counter on its way to `target`: every smaller count from zero is pending. -/
def Goal.ofCount (target : Int32) (timeout : Duration) : Goal where
  pending :=
    ((List.range target.toInt.toNat).map Nat.repr).mergeSort (fun a b => decide (a ≤ b))
  target := Text.intText target.toInt
  timeout := timeout

structure Backoff where
  least : Duration
  greatest : Duration
deriving DecidableEq, Repr

namespace Backoff

def initial : Backoff := ⟨.ofMilliseconds 100, .ofSeconds 10⟩

/-- The delay after a given one. -/
def next (b : Backoff) (delay : Duration) : Duration :=
  (delay.double.greatest b.least).least (b.greatest.greatest b.least)

end Backoff

theorem Goal.mem_pending_ofCount (target : Int32) (timeout : Duration) (label : String) :
    label ∈ (Goal.ofCount target timeout).pending ↔
      ∃ n : Nat, n < target.toInt.toNat ∧ n.repr = label := by
  simp [Goal.ofCount, List.mem_mergeSort]

theorem Backoff.nanoseconds_next (b : Backoff) (delay : Duration) :
    (b.next delay).nanoseconds =
      min (max (min (2 * delay.nanoseconds) maxNanoseconds) b.least.nanoseconds)
        (max b.greatest.nanoseconds b.least.nanoseconds) := by
  simp only [next, Duration.nanoseconds_least, Duration.nanoseconds_greatest,
    Duration.nanoseconds_double]

end DesiredState
