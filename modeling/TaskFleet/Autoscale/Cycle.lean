/-
  TaskFleet.Autoscale.Cycle — bringing pools to the number of pods they should have.

  Only pods with nothing on them are deleted. A frozen pool loses its idle pods and gets no
  new ones; a pool with tasks that wait for their apply is not scaled down. A pod whose
  agent never registered is replaced, as its restart history allows.
-/

import TaskFleet.Capacity.Reconcile

namespace TaskFleet

/-- Why scaling failed. -/
inductive ScalingError where
  | poolNotFound (pool : String)
  | clockOutOfRange (secs : UInt64)
  | store (error : StoreError)
  | capacity (error : CapacityError)
  deriving DecidableEq, Repr

def ScalingError.message : ScalingError → String
  | poolNotFound pool => s!"pool {pool} not found"
  | clockOutOfRange secs => s!"clock reading {secs} is out of range"
  | store error => error.message
  | capacity error => error.message

namespace Autoscale

open Fallible

variable (cfg : Settings)

/-! ## Parts -/

/-- Reads the store. -/
def look {α : Type} (f : Store → Except StoreError α) : Fallible ScalingError α :=
  ofResult <| (Except.mapError .store) <$> Program.readStore f

/-- Work on the pods. -/
def onPods {α : Type} (p : Fallible CapacityError α) : Fallible ScalingError α :=
  ofResult <| (Except.mapError .capacity) <$> p.run

/-- What the pool's schedules say now. -/
def freezeStatus (pool : AgentPool) : Fallible ScalingError FreezeStatus := do
  let now ← always <| Program.get (·.now)
  match Calendar.ofClock? now with
  | some t => return pool.freezeStatus t
  | none => throw (.clockOutOfRange now)

/-- Creates so many pods, up to the first failure, and counts those created. -/
def createPods (pool : AgentPool) : Nat → Program World Nat
  | 0 => return 0
  | n + 1 => do
    match ← (Capacity.createPod cfg.capacity pool).run with
    | .ok _ => return (← createPods pool n) + 1
    | .error _ => return 0

/-- Deletes each of these pods if that works, and counts those deleted. -/
def deletePods : List String → Program World Nat
  | [] => return 0
  | pod :: rest => do
    match ← (Capacity.deletePod cfg.capacity pod).run with
    | .ok () => return (← deletePods rest) + 1
    | .error _ => deletePods rest

/-- Queues each of these workspaces for now. -/
def trigger (workspaces : List String) : Program World Unit :=
  Program.forEach (fun ws => Program.modify (·.trigger ws)) workspaces

def podCount (pool : String) : Program World Nat := Program.get (·.capacity.podCount pool)

/-- The pool as scaling sees it. -/
def snapshot (capacity : Capacity) (pool : String) (work : PoolWorkload) : PoolSnapshot :=
  let pods := capacity.podsIn pool
  { pods := UInt32.ofNat pods.length
    podsWithRunning := UInt32.ofNat (pods.countP (·.hasRunning))
    stats := capacity.slotStats pool
    pending := UInt32.ofNat work.pending
    unblockedPending := UInt32.ofNat work.unblockedPending
    unblockedPendingApply := UInt32.ofNat work.unblockedPendingApply }

/-! ## Scaling -/

/-- Deletes the idle pods of a frozen pool. -/
def shrinkFrozen (pool : String) : Program World (UInt32 × Bool) := do
  let idle ← Program.get fun w => (w.capacity.idlePods pool).map (·.name)
  let deleted ← deletePods cfg idle
  return (.ofNat (← podCount pool), 0 < deleted)

/-- Creates the pods that are missing, and queues the workspaces that wait for them. -/
def grow (pool : AgentPool) (current missing : UInt32) (waiting : List String) : Program World (UInt32 × Bool) := do
  let created ← createPods cfg pool missing.toNat
  if 0 < created then trigger waiting
  return (current + .ofNat created, 0 < created)

/-- Deletes idle pods, the oldest first, unless a task waits for its apply. -/
def shrink (pool : String) (current surplus : UInt32) : Fallible ScalingError (UInt32 × Bool) := do
  let work ← look (·.poolWorkload pool)
  if 0 < work.applyPending then return (current, false)
  let idle ← always <| Program.get fun w => (w.capacity.idlePods pool).map (·.name)
  let deleted ← always <| deletePods cfg (idle.take surplus.toNat)
  return (current - .ofNat deleted, 0 < deleted)

/-- Scales a pool whose pods are up to date; answers the number of pods and whether scaling
    changed it. -/
def scaleReconciled (pool : AgentPool) : Fallible ScalingError (UInt32 × Bool) := do
  if (← freezeStatus pool).isFrozen then always (shrinkFrozen cfg pool.id)
  else
    let capacity ← always <| Program.get (·.capacity)
    let work ← look (·.poolWorkload pool.id)
    let view := snapshot capacity pool.id work
    let current := view.pods
    let desired := view.desiredPods pool cfg.scaling
    if desired = current then return (current, false)
    else if current < desired then always (grow cfg pool current (desired - current) work.pendingWorkspaces)
    else shrink cfg pool.id current (current - desired)

/-- Reconciles a pool and scales it. -/
def scalePool (pool : AgentPool) : Fallible ScalingError (UInt32 × Bool) := do
  onPods (Capacity.reconcile cfg.capacity pool)
  scaleReconciled cfg pool

/-- The number of pods that an empty pool starts with. -/
def initialPods (pool : AgentPool) : Nat := (min (max pool.minReplicas 1) (max pool.maxReplicas 1)).toNat

/-- Makes sure that a pool has pods, then scales it. -/
def ensurePods (id : String) : Fallible ScalingError (UInt32 × Bool) := do
  let some pool ← look (·.pool? id) | throw (.poolNotFound id)
  if pool.kind ≠ .kubernetes then return (.ofNat (← always (podCount id)), false)
  onPods (Capacity.reconcile cfg.capacity pool)
  let frozen := (← freezeStatus pool).isFrozen
  let empty := (← always (podCount id)) = 0
  let created ← if !frozen ∧ empty then always (createPods cfg pool (initialPods pool)) else pure 0
  let (count, scaled) ← scaleReconciled cfg pool
  return (count, scaled || 0 < created)

/-! ## Unhealthy pods -/

/-- Works on a pool's restart history. -/
def onTracker {α : Type} (pool : String) (f : RestartTracker → α × RestartTracker) : Program World α :=
  Program.apply fun w =>
    let (a, tracker) := f ((w.trackers.get? pool).getD {})
    (a, { w with trackers := w.trackers.insert pool tracker })

/-- Replaces one unhealthy pod if its history allows that; gives the new pod's name. -/
def restart (pool : AgentPool) (pod : String) (now : UInt64) : Program World (Option String) := do
  match ← onTracker pool.id (·.decide cfg.scaling.restart pod now) with
  | .backoff _ | .giveUp _ _ => return none
  | .restart _ =>
    match ← (Capacity.deletePod cfg.capacity pod).run with
    | .error _ => return none
    | .ok () =>
      let new := (← (Capacity.createPod cfg.capacity pool).run).toOption.map (·.name)
      let _ ← onTracker pool.id (·.recordRestart pod new now)
      return new

/-- Replaces each of these pods as far as their history allows; gives the new pods' names. -/
def restartEach (pool : AgentPool) (now : UInt64) : List String → Program World (List String)
  | [] => return []
  | pod :: rest => do
    let new ← restart cfg pool pod now
    return new.toList ++ (← restartEach pool now rest)

/-- Whether a pod had time for its agent to register and none did. -/
def isUnhealthy (p : Pod) (now : UInt64) : Bool :=
  p.agent.isNone && cfg.scaling.restart.grace.secs.toNat ≤ now.toNat - p.createdAt.toNat

/-- Replaces a pool's unhealthy pods, unless work is in flight. -/
def restartUnhealthy (pool : AgentPool) : Fallible ScalingError (List String) := do
  let work ← look (·.poolWorkload pool.id)
  if 0 < work.inFlight then return []
  let (now, pods) ← always <| Program.get fun w => (w.now, w.capacity.podsIn pool.id)
  always <| onTracker pool.id fun t => ((), t.retain (pods.map (·.name)))
  let unhealthy := (pods.filter (isUnhealthy cfg · now)).map (·.name)
  if unhealthy.isEmpty then
    always <| onTracker pool.id fun _ => ((), .clear)
    return []
  always <| restartEach cfg pool now unhealthy

/-! ## The control loop -/

/-- One pool's part of a cycle. -/
def cyclePool (pool : AgentPool) : Program World (Option (String × UInt32 × Bool)) := do
  match ← (Capacity.reconcile cfg.capacity pool).run with
  | .error _ => return none
  | .ok () =>
    ignoring (restartUnhealthy cfg pool)
    let result ← (scaleReconciled cfg pool).run
    let work ← (look (·.poolWorkload pool.id)).run
    if let .ok work := work then trigger work.pendingWorkspaces
    return result.toOption.map fun (count, scaled) => (pool.id, count, scaled)

/-- The cycle over these pools. -/
def cyclePools : List AgentPool → Program World (List (String × UInt32 × Bool))
  | [] => return []
  | pool :: rest => do
    let result ← cyclePool cfg pool
    return result.toList ++ (← cyclePools rest)

/-- One cycle over every Kubernetes pool: the pools that were scaled, with their numbers of
    pods and whether those changed. -/
def cycle : Fallible ScalingError (List (String × UInt32 × Bool)) := do
  let pools ← look (·.listPools)
  always <| cyclePools cfg (pools.filter (·.kind == .kubernetes))

end Autoscale

end TaskFleet
