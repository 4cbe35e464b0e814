/-
  TaskFleet.Proofs.Queue.RetryDelays — how long an attempt is put off after so many failures.

  A delay is to be the base doubled with every failure, in exact arithmetic, up to the longest
  delay. The factor is a word of 32 bits: it is the power of two as long as that fits, and the
  largest word from the thirty-second failure on. So a delay is never more than that many bases,
  and it falls short of the exponential one where neither the base nor the longest delay hides it.
  - `toNat_doublings`: the factor, exactly.
  - `delay_stops_at_the_largest_factor`: the delay, and exactly where it is the exponential one.
  - `delay_falls_short`: the first factor that does not fit.
-/

import TaskFleet.Queue.Backoff
import Mathlib.Algebra.Ring.Nat

namespace TaskFleet.Backoff

/-- The delay in nanoseconds if the factor had no limit: a product beyond the largest span counts
    as that span. -/
def exponential (b : Backoff) (n : UInt32) : Nat :=
  min b.longest.nanos (min Duration.longest.nanos (b.base.nanos * 2 ^ n.toNat))

variable {n : UInt32}

/-! ## The factor -/

theorem two_pow_fits (h : n < 32) : 2 ^ n.toNat ≤ 2 ^ 32 - 1 := by
  have hn : n.toNat < 32 := UInt32.lt_iff_toNat_lt.1 h
  have hpow : 2 ^ n.toNat ≤ 2 ^ 31 := Nat.pow_le_pow_right (by decide) (by omega)
  omega

theorem two_pow_exceeds (h : ¬n < 32) : 2 ^ 32 - 1 < 2 ^ n.toNat := by
  have hn : 32 ≤ n.toNat := UInt32.le_iff_toNat_le.1 (UInt32.not_lt.1 h)
  have hpow : 2 ^ 32 ≤ 2 ^ n.toNat := Nat.pow_le_pow_right (by decide) hn
  omega

theorem toNat_doublings (n : UInt32) : (doublings n).toNat = min (2 ^ n.toNat) (2 ^ 32 - 1) := by
  unfold doublings
  split
  · next h =>
    have hn : n.toNat < 32 := UInt32.lt_iff_toNat_lt.1 h
    rw [Nat.min_eq_left (two_pow_fits h), UInt32.toNat_shiftLeft, Nat.mod_eq_of_lt hn, Nat.shiftLeft_eq,
      UInt32.toNat_one, Nat.one_mul, Nat.mod_eq_of_lt]
    have hfits := two_pow_fits h
    omega
  · next h =>
    rw [Nat.min_eq_right (Nat.le_of_lt (two_pow_exceeds h))]
    rfl

/-! ## The delay -/

theorem nanos_delay (b : Backoff) (n : UInt32) :
    (b.delay n).nanos = min (b.exponential n) (b.base.nanos * (2 ^ 32 - 1)) := by
  have hfactor : b.base.nanos * (doublings n).toNat =
      min (b.base.nanos * 2 ^ n.toNat) (b.base.nanos * (2 ^ 32 - 1)) := by
    rw [toNat_doublings, Nat.mul_min_mul_left]
  rw [delay, Duration.nanos_least, Duration.nanos_mul, hfactor, exponential]
  omega

theorem exponential_le_iff (b : Backoff) (n : UInt32) :
    b.exponential n ≤ b.base.nanos * (2 ^ 32 - 1) ↔
      n < 32 ∨ b.base.nanos = 0 ∨ b.longest.nanos ≤ b.base.nanos * (2 ^ 32 - 1) := by
  have hlongest := b.longest.nanos_le_longest
  unfold exponential
  by_cases h : n < 32
  · have hproduct := Nat.mul_le_mul_left b.base.nanos (two_pow_fits h)
    simp only [h, true_or, iff_true]
    omega
  · rcases Nat.eq_zero_or_pos b.base.nanos with hzero | hpos
    · simp [hzero]
    · have hproduct := Nat.mul_lt_mul_of_pos_left (two_pow_exceeds h) hpos
      simp only [h, false_or]
      omega

/-- For every base, longest delay and number of failures the delay is the exponential one, but never more than
    `2 ^ 32 - 1` bases. It is the exponential one exactly if the factor fits, or there is nothing to double, or the
    longest delay is reached without it. -/
theorem delay_stops_at_the_largest_factor (b : Backoff) (n : UInt32) :
    (b.delay n).nanos = min (b.exponential n) (b.base.nanos * (2 ^ 32 - 1)) ∧
      ((b.delay n).nanos = b.exponential n ↔
        n < 32 ∨ b.base.nanos = 0 ∨ b.longest.nanos ≤ b.base.nanos * (2 ^ 32 - 1)) := by
  refine ⟨b.nanos_delay n, ?_⟩
  rw [← exponential_le_iff, nanos_delay]
  omega

/-- Delays from one second on, with a longest one that takes thirty-two doublings. -/
def fromOneSecond : Backoff := ⟨.ofSecs 1, .ofSecs 4294967296⟩

/-- After thirty-two failures the delay is a second shorter than the exponential one. -/
theorem delay_falls_short :
    (fromOneSecond.delay 32).nanos = 4294967295 * 1000000000 ∧
      fromOneSecond.exponential 32 = 4294967296 * 1000000000 := by
  decide +kernel

end TaskFleet.Backoff
