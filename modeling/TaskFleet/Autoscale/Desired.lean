/-
  TaskFleet.Autoscale.Desired — how many pods a pool should have.

  An empty pool gets its least number of pods, one if work waits. Otherwise the number
  follows exclusive work that needs a pod of its own, then the share of taken slots; slots
  kept for an apply are never scaled away, and the pool's bounds come last.
-/

import TaskFleet.Capacity.Pod
import TaskFleet.Workspace
import TaskFleet.Autoscale.Restart

namespace TaskFleet

structure ScalingSettings where
  /-- Above this share of taken slots a pool grows. -/
  growAbove : Float := 0.8
  /-- Below this share an unused pool shrinks. -/
  shrinkBelow : Float := 0.2
  restart : RestartPolicy := {}

/-- What the number of pods depends on. -/
structure PoolSnapshot where
  pods : UInt32
  podsWithRunning : UInt32
  stats : SlotStats
  pending : UInt32
  unblockedPending : UInt32
  unblockedPendingApply : UInt32
  deriving DecidableEq, Repr

/-- A number brought between two bounds. -/
def clampWord (n low high : UInt32) : UInt32 := if n < low then low else if high < n then high else n

/-- A quotient rounded up. -/
def ceilDiv (a b : UInt32) : UInt32 := if a % b = 0 then a / b else a / b + 1

namespace PoolSnapshot

variable (s : PoolSnapshot)

/-- Pods for the running work and for the exclusive work that could start. -/
def required : UInt32 := s.podsWithRunning + s.unblockedPendingApply

/-- The number of pods that the work asks for, bounds and kept slots apart. -/
def wanted (cfg : ScalingSettings) : UInt32 :=
  if 0 < s.unblockedPendingApply ∧ s.pods < s.required then s.required
  else
    let utilization := s.stats.utilization
    if cfg.growAbove < utilization then s.pods + 1
    else if utilization < cfg.shrinkBelow ∧ s.stats.used = 0 ∧ s.unblockedPending = 0 then
      if s.pods = 0 then 0 else s.pods - 1
    else s.pods

/-- The number of pods that a pool should have. -/
def desiredPods (pool : AgentPool) (cfg : ScalingSettings) : UInt32 :=
  let least := pool.minReplicas
  let most := max pool.maxReplicas least
  if s.pods = 0 ∨ s.stats.total = 0 then
    clampWord (if 0 < s.pending then max least 1 else least) least most
  else
    let n := s.wanted cfg
    let n := if 0 < s.stats.reserved then max n (ceilDiv s.stats.reserved (max pool.slotsPerPod 1)) else n
    clampWord n least most

end PoolSnapshot

end TaskFleet
