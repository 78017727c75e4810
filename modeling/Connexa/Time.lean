import Mathlib.Algebra.Ring.Nat
import Mathlib.Order.MinMax

/-!
# Durations and instants

`std::time::Duration` is a number of nanoseconds whose seconds fit in a `u64`;
the bound is part of the type.  An `Instant` is a number of nanoseconds on the
monotonic clock, and adding a duration to it fails past the last
representable instant, where the standard library panics.
-/

namespace Connexa

/-- Nanoseconds of `Duration::MAX`. -/
def maxDurationNanos : ℕ := 2 ^ 64 * 10 ^ 9 - 1

/-- A span of time whose whole seconds fit in 64 bits. -/
structure Duration where
  nanos : ℕ
  bounded : nanos ≤ maxDurationNanos
  deriving DecidableEq

namespace Duration

def ofSecs (secs : ℕ) (h : secs * 10 ^ 9 ≤ maxDurationNanos) : Duration :=
  ⟨secs * 10 ^ 9, h⟩

/-- `Duration::saturating_mul`. -/
def saturatingMul (d : Duration) (scale : ℕ) : Duration :=
  ⟨min (d.nanos * scale) maxDurationNanos, min_le_right _ _⟩

/-- `Ord::min` on durations. -/
def min (a b : Duration) : Duration :=
  if a.nanos ≤ b.nanos then a else b

theorem nanos_min (a b : Duration) : (a.min b).nanos = Nat.min a.nanos b.nanos := by
  unfold Duration.min
  split
  · next h => exact (Nat.min_eq_left h).symm
  · next h => exact (Nat.min_eq_right (Nat.le_of_not_le h)).symm

end Duration

/-- Nanoseconds on the monotonic clock. -/
abbrev Instant := ℕ

/-- The last instant whose seconds fit in a signed 64-bit integer. -/
def maxInstant : Instant := 2 ^ 63 * 10 ^ 9 - 1

/-- `Instant + Duration`, undefined where the addition panics. -/
def Instant.checkedAdd (t : Instant) (d : Duration) : Option Instant :=
  if t + d.nanos ≤ maxInstant then some (t + d.nanos) else none

theorem Instant.checkedAdd_eq_some {t u : Instant} {d : Duration} :
    t.checkedAdd d = some u ↔ t + d.nanos ≤ maxInstant ∧ u = t + d.nanos := by
  unfold Instant.checkedAdd
  split <;> grind

end Connexa
