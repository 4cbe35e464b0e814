/-
  TaskFleet.Capacity.Pod — slots, the pods that carry them, and who may have which slot.

  A slot is idle, reserved for a task or running one. `Pod.freeSlot?` is the rule of
  admission: the first idle slot, and for an exclusive task only on a pod that holds no
  other exclusive task.
-/

import TaskFleet.Task.Status
import TaskFleet.Time.Duration

namespace TaskFleet

inductive SlotStatus where
  | idle
  | reserved
  | running
  deriving DecidableEq, Repr, Inhabited

def SlotStatus.name : SlotStatus → String
  | idle => "idle"
  | reserved => "reserved"
  | running => "running"

/-- A place for one task on a pod. -/
structure Slot where
  index : Nat
  status : SlotStatus := .idle
  task : Option UInt64 := none
  kind : Option TaskKind := none
  updatedAt : UInt64
  deriving DecidableEq, Repr, Inhabited

namespace Slot

/-- The slot bound to a task. -/
def bind (s : Slot) (status : SlotStatus) (task : UInt64) (kind : TaskKind) (now : UInt64) : Slot :=
  { s with status, task := some task, kind := some kind, updatedAt := now }

/-- The slot with nothing on it. -/
def clear (s : Slot) (now : UInt64) : Slot := { index := s.index, updatedAt := now }

def markRunning (s : Slot) (now : UInt64) : Slot := { s with status := .running, updatedAt := now }

def isIdle (s : Slot) : Bool := s.status == .idle

/-- Whether an exclusive task has the slot. -/
def holdsExclusive (s : Slot) : Bool := !s.isIdle && s.kind == some .planAndApply

end Slot

/-- The number of slots in each status. -/
structure SlotStats where
  total : UInt32 := 0
  used : UInt32 := 0
  reserved : UInt32 := 0
  idle : UInt32 := 0
  deriving DecidableEq, Repr, Inhabited

namespace SlotStats

/-- The share of slots that are taken; none of no slots. -/
def utilization (s : SlotStats) : Float :=
  if s.total = 0 then 0 else (s.used + s.reserved).toUInt64.toFloat / s.total.toUInt64.toFloat

def countSlot (st : SlotStats) (s : Slot) : SlotStats :=
  match s.status with
  | .running => { st with total := st.total + 1, used := st.used + 1 }
  | .reserved => { st with total := st.total + 1, reserved := st.reserved + 1 }
  | .idle => { st with total := st.total + 1, idle := st.idle + 1 }

end SlotStats

/-- A pod under management. -/
structure Pod where
  name : String
  pool : String
  /-- The agent that registered from it. -/
  agent : Option String := none
  createdAt : UInt64
  lastHeartbeat : UInt64
  slots : List Slot
  deriving DecidableEq, Repr, Inhabited

namespace Pod

/-- A pod with nothing on it. -/
def fresh (name pool : String) (slots : UInt32) (createdAt now : UInt64) : Pod :=
  { name, pool, createdAt, lastHeartbeat := now,
    slots := (List.range slots.toNat).map fun i => { index := i, updatedAt := now } }

def isFullyIdle (p : Pod) : Bool := p.slots.all (·.isIdle)

def hasRunning (p : Pod) : Bool := p.slots.any (·.status == .running)

/-- Whether it was heard of within the timeout. -/
def isLive (p : Pod) (timeoutSecs now : UInt64) : Bool :=
  now.toNat - p.lastHeartbeat.toNat ≤ timeoutSecs.toNat

/-- The slot that a task of this kind would get. -/
def freeSlot? (p : Pod) (kind : TaskKind) : Option Nat :=
  if kind = .planAndApply ∧ p.slots.any (·.holdsExclusive) then none
  else p.slots.findIdx? (·.isIdle)

/-- Changes one slot. -/
def modifySlot (p : Pod) (slot : Nat) (f : Slot → Slot) : Pod := { p with slots := p.slots.modify slot f }

/-- The slot a task is bound to. -/
def slotOf? (p : Pod) (task : UInt64) : Option Nat := p.slots.findIdx? (·.task == some task)

/-- Pods are served in the order of their age, then of their names. -/
def olderOrSame (a b : Pod) : Bool :=
  a.createdAt < b.createdAt || (a.createdAt == b.createdAt && decide (a.name ≤ b.name))

end Pod

end TaskFleet
