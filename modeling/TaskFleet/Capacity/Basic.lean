/-
  TaskFleet.Capacity.Basic — the pods under management and the operations on their slots.

  Every operation here is one atomic step and touches no cluster. Operations that fail
  leave the pods as they were. `allocate` serves a pool's live pods from the oldest on.
-/

import TaskFleet.Capacity.Pod
import TaskFleet.Table
import TaskFleet.Sorting

namespace TaskFleet

/-- Why a pool operation failed. -/
inductive CapacityError where
  | podNotFound (pod : String)
  | invalidSlot (pod : String) (slot : Nat)
  | slotBusy (pod : String) (slot : Nat) (status : SlotStatus)
  /-- Nothing free where it was looked for: in a pool or on an agent. -/
  | noFreeSlot (place : String)
  | taskNotPlaced (task : UInt64)
  | podBusy (pod : String)
  /-- The cluster refused. -/
  | backend (reason : String)
  /-- The cluster did not answer in time. -/
  | timeout (call : String)
  deriving DecidableEq, Repr

def CapacityError.message : CapacityError → String
  | podNotFound pod => s!"pod {pod} not found"
  | invalidSlot pod slot => s!"pod {pod}: invalid slot {slot}"
  | slotBusy pod slot status => s!"pod {pod}: slot {slot} is not idle (status: {status.name})"
  | noFreeSlot place => s!"no free slot available in pool {place}"
  | taskNotPlaced task => s!"task {task} is not bound to any slot"
  | podBusy pod => s!"pod {pod} has non-idle slots"
  | backend reason => s!"pod backend error: {reason}"
  | timeout call => s!"pod backend timed out during {call}"

structure CapacitySettings where
  heartbeatTimeoutSecs : UInt64 := 120
  reservationTtlSecs : UInt64 := 86400
  backendTimeout : Duration := .ofSecs 30

/-- A slot found for a task. -/
structure Placement where
  pod : String
  slot : Nat
  /-- The agent registered on the pod. -/
  agent : Option String
  deriving DecidableEq, Repr

/-- The pods of every pool. -/
structure Capacity where
  pods : Table Pod := .empty
  /-- How many pod names were given out. -/
  nameSeq : UInt64 := 0
  deriving DecidableEq, Inhabited

namespace Capacity

variable (c : Capacity)

/-! ## Reads -/

def pod? (name : String) : Except CapacityError Pod :=
  match c.pods.get? name with
  | some p => .ok p
  | none => .error (.podNotFound name)

/-- The pods of a pool, the oldest first. -/
def podsIn (pool : String) : List Pod := sortBy Pod.olderOrSame (c.pods.values.filter (·.pool == pool))

def podCount (pool : String) : Nat := (c.pods.values.filter (·.pool == pool)).length

/-- The pods of a pool on which every slot is idle. -/
def idlePods (pool : String) : List Pod := (c.podsIn pool).filter (·.isFullyIdle)

def podOfAgent? (agent : String) : Option Pod := c.pods.values.find? (·.agent == some agent)

def slotStats (pool : String) : SlotStats :=
  ((c.podsIn pool).flatMap (·.slots)).foldl SlotStats.countSlot {}

/-- Where a task is. -/
def placementOf? (task : UInt64) : Option Placement :=
  c.pods.values.findSome? fun p => (p.slotOf? task).map fun i => ⟨p.name, i, p.agent⟩

def findPlacement (task : UInt64) : Except CapacityError Placement :=
  match c.placementOf? task with
  | some p => .ok p
  | none => .error (.taskNotPlaced task)

/-- The slot that a task of this kind would get in a pool. -/
def freeSlotIn? (cfg : CapacitySettings) (pool : String) (kind : TaskKind) (now : UInt64) :
    Option (Pod × Nat) :=
  (c.podsIn pool).findSome? fun p =>
    if p.isLive cfg.heartbeatTimeoutSecs now then (p.freeSlot? kind).map fun i => (p, i) else none

def findFreeSlot (cfg : CapacitySettings) (pool : String) (kind : TaskKind) (now : UInt64) :
    Except CapacityError (String × Nat) :=
  match c.freeSlotIn? cfg pool kind now with
  | some (p, i) => .ok (p.name, i)
  | none => .error (.noFreeSlot pool)

/-! ## Slots -/

/-- Changes one slot of a pod. -/
def modifySlot (pod : String) (slot : Nat) (f : Slot → Slot) : Capacity :=
  { c with pods := c.pods.modify pod (·.modifySlot slot f) }

/-- Changes one slot that must be there. -/
def setSlot (pod : String) (slot : Nat) (f : Slot → Slot) : Except CapacityError Capacity := do
  let p ← c.pod? pod
  if slot < p.slots.length then return c.modifySlot pod slot f else throw (.invalidSlot pod slot)

/-- Reserves an idle slot for a task. -/
def assign (pod : String) (slot : Nat) (task : UInt64) (kind : TaskKind) (now : UInt64) :
    Except CapacityError Capacity := do
  let p ← c.pod? pod
  let some s := p.slots[slot]? | throw (.invalidSlot pod slot)
  unless s.isIdle do throw (.slotBusy pod slot s.status)
  return c.modifySlot pod slot (·.bind .reserved task kind now)

/-- Reserves a slot of a pool for a task. -/
def allocate (cfg : CapacitySettings) (pool : String) (task : UInt64) (kind : TaskKind) (now : UInt64) :
    Except CapacityError (Placement × Capacity) :=
  match c.freeSlotIn? cfg pool kind now with
  | some (p, i) => .ok (⟨p.name, i, p.agent⟩, c.modifySlot p.name i (·.bind .reserved task kind now))
  | none => .error (.noFreeSlot pool)

/-- Reserves a slot for a task on the pod that an agent registered from. -/
def allocateOnAgent (agent : String) (task : UInt64) (kind : TaskKind) (now : UInt64) :
    Except CapacityError (Placement × Capacity) :=
  match c.podOfAgent? agent with
  | none => .error (.noFreeSlot s!"agent {agent}")
  | some p =>
    match p.freeSlot? kind with
    | some i => .ok (⟨p.name, i, some agent⟩, c.modifySlot p.name i (·.bind .reserved task kind now))
    | none => .error (.noFreeSlot p.pool)

def markRunning (pod : String) (slot : Nat) (now : UInt64) : Except CapacityError Capacity :=
  c.setSlot pod slot (·.markRunning now)

/-- Keeps a slot for a task whose apply waits for an operator. -/
def reserve (pod : String) (slot : Nat) (task : UInt64) (now : UInt64) : Except CapacityError Capacity :=
  c.setSlot pod slot (·.bind .reserved task .planAndApply now)

def release (pod : String) (slot : Nat) (now : UInt64) : Except CapacityError Capacity :=
  c.setSlot pod slot (·.clear now)

/-! ## Agents -/

/-- Records the agent that registered from a pod. -/
def registerAgent (pod agent : String) (now : UInt64) : Except CapacityError Capacity := do
  let _ ← c.pod? pod
  return { c with pods := c.pods.modify pod fun p => { p with agent := some agent, lastHeartbeat := now } }

def heartbeat (pod : String) (now : UInt64) : Except CapacityError Capacity := do
  let _ ← c.pod? pod
  return { c with pods := c.pods.modify pod fun p => { p with lastHeartbeat := now } }

/-! ## Pods -/

/-- The name for the next pod of a pool, and the pods with that name spent. -/
def nextName (pool : String) (now : UInt64) : String × Capacity :=
  (s!"runplane-agent-{pool}-{now}-{c.nameSeq}", { c with nameSeq := c.nameSeq + 1 })

def insertPod (p : Pod) : Capacity := { c with pods := c.pods.insert p.name p }

/-- Gives up a pod; only one with nothing on it. -/
def removeIdle (pod : String) : Except CapacityError Capacity := do
  let p ← c.pod? pod
  unless p.isFullyIdle do throw (.podBusy pod)
  return { c with pods := c.pods.erase pod }

end Capacity

end TaskFleet
