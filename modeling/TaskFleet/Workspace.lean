/-
  TaskFleet.Workspace — workspaces and the pools of agents that serve them.
-/

import TaskFleet.Named

namespace TaskFleet

/-- Where a workspace's tasks run. -/
inductive ExecutionMode where
  /-- On this machine. -/
  | onHost
  /-- On an agent that connected by itself. -/
  | agent
  /-- On an agent in a pod of a Kubernetes pool. -/
  | kubernetes
  deriving DecidableEq, Repr, Inhabited

namespace ExecutionMode

def name : ExecutionMode → String
  | onHost => "local"
  | agent => "agent"
  | kubernetes => "k8s"

instance : Named ExecutionMode := ⟨[onHost, agent, kubernetes], name⟩

def isRemote (m : ExecutionMode) : Bool := m != onHost

end ExecutionMode

/-- The unit of scheduling: one mutating task of a workspace at a time. -/
structure Workspace where
  id : String
  mode : ExecutionMode
  pool : Option String := none
  /-- The administrative hold: while it is on, no task of the workspace starts. -/
  isLocked : Bool := false
  lockedBy : Option String := none
  deriving DecidableEq, Repr, Inhabited

/-- Who keeps a pool's pods. -/
inductive PoolKind where
  | static
  | kubernetes
  deriving DecidableEq, Repr, Inhabited

namespace PoolKind

def name : PoolKind → String
  | static => "static"
  | kubernetes => "k8s"

instance : Named PoolKind := ⟨[static, kubernetes], name⟩

end PoolKind

/-- A window of the week in which a pool is not to grow. Weekdays count from Monday, 1;
    times are written `HH:MM`, in UTC, both ends included. -/
structure FreezeSchedule where
  weekdays : List UInt8
  fromTime : String
  toTime : String
  deriving DecidableEq, Repr, Inhabited

/-- The slots of a pod whose pool does not say. -/
def defaultSlotsPerPod : UInt32 := 3

/-- A pool of agents. -/
structure AgentPool where
  id : String
  kind : PoolKind
  minReplicas : UInt32
  maxReplicas : UInt32
  slotsPerPod : UInt32 := defaultSlotsPerPod
  freezeSchedules : List FreezeSchedule := []
  /-- Until this time (seconds since 1970) freeze windows do not count. -/
  unfreezeUntil : Option UInt64 := none
  deriving DecidableEq, Repr, Inhabited

end TaskFleet
