/-
  TaskFleet.Queue.Backoff — delays that double with every failure, up to a longest one.

  The factor is a 32-bit power of two; from the thirty-second failure on it stays at the
  largest 32-bit number.
-/

import TaskFleet.Time.Duration

namespace TaskFleet

/-- `2^n`, or the largest 32-bit number where that does not fit. -/
def doublings (n : UInt32) : UInt32 := if n < 32 then 1 <<< n else 0xFFFFFFFF

structure Backoff where
  base : Duration
  longest : Duration
  deriving DecidableEq

/-- The delay after so many failures. -/
def Backoff.delay (b : Backoff) (failures : UInt32) : Duration :=
  (b.base.mul (doublings failures)).least b.longest

end TaskFleet
