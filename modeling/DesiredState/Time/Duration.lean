/-!
Lengths of time in nanoseconds, up to a largest one.
Every operation stays within the bound: sums and doublings that would exceed
it give the largest duration, and differences below zero give zero.
-/
namespace DesiredState

/-- Seconds of 64 bits and a full second less one nanosecond. -/
def maxNanoseconds : Nat := (UInt64.size - 1) * 1000000000 + 999999999

structure Duration where
  nanoseconds : Nat
  le_max : nanoseconds ≤ maxNanoseconds := by decide
deriving DecidableEq, Repr

namespace Duration

/-- The duration of so many nanoseconds, or the largest one. -/
def saturating (nanoseconds : Nat) : Duration :=
  ⟨min nanoseconds maxNanoseconds, Nat.min_le_right _ _⟩

def zero : Duration := ⟨0, Nat.zero_le _⟩

def longest : Duration := ⟨maxNanoseconds, Nat.le_refl _⟩

def ofMilliseconds (n : Nat) : Duration := saturating (n * 1000000)

def ofSeconds (n : Nat) : Duration := saturating (n * 1000000000)

instance : LE Duration := ⟨fun a b => a.nanoseconds ≤ b.nanoseconds⟩

instance : LT Duration := ⟨fun a b => a.nanoseconds < b.nanoseconds⟩

instance (a b : Duration) : Decidable (a ≤ b) :=
  inferInstanceAs (Decidable (a.nanoseconds ≤ b.nanoseconds))

instance (a b : Duration) : Decidable (a < b) :=
  inferInstanceAs (Decidable (a.nanoseconds < b.nanoseconds))

def least (a b : Duration) : Duration := if a ≤ b then a else b

def greatest (a b : Duration) : Duration := if a ≤ b then b else a

def double (a : Duration) : Duration := saturating (2 * a.nanoseconds)

/-- What is left of `a` after `b`; nothing if `b` is longer. -/
def minus (a b : Duration) : Duration :=
  ⟨a.nanoseconds - b.nanoseconds, Nat.le_trans (Nat.sub_le _ _) a.le_max⟩

/-- Whole seconds. -/
def seconds (a : Duration) : Nat := a.nanoseconds / 1000000000

def subsecondNanoseconds (a : Duration) : Nat := a.nanoseconds % 1000000000

/-- Whole milliseconds. -/
def milliseconds (a : Duration) : Nat := a.nanoseconds / 1000000

/-- The time from one clock reading to another; none has passed if the clock went back. -/
def between (start stop : Int) : Duration := saturating (stop - start).toNat

theorem nanoseconds_saturating (n : Nat) :
    (saturating n).nanoseconds = min n maxNanoseconds := rfl

theorem nanoseconds_double (a : Duration) :
    a.double.nanoseconds = min (2 * a.nanoseconds) maxNanoseconds := rfl

theorem nanoseconds_minus (a b : Duration) :
    (a.minus b).nanoseconds = a.nanoseconds - b.nanoseconds := rfl

theorem nanoseconds_least (a b : Duration) :
    (a.least b).nanoseconds = min a.nanoseconds b.nanoseconds := by
  unfold least
  by_cases h : a ≤ b
  · rw [if_pos h, Nat.min_eq_left h]
  · rw [if_neg h, Nat.min_eq_right (Nat.le_of_not_le h)]

theorem nanoseconds_greatest (a b : Duration) :
    (a.greatest b).nanoseconds = max a.nanoseconds b.nanoseconds := by
  unfold greatest
  by_cases h : a ≤ b
  · rw [if_pos h, Nat.max_eq_right h]
  · rw [if_neg h, Nat.max_eq_left (Nat.le_of_not_le h)]

@[ext] theorem ext {a b : Duration} (h : a.nanoseconds = b.nanoseconds) : a = b := by
  cases a
  cases b
  simp_all

end Duration

end DesiredState
