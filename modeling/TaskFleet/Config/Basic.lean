/-
  TaskFleet.Config.Basic — how an installation is configured: its numbers as a person writes
  them, the settings that follow from them, and the pools and workspaces it starts with.

  Everything has a default. A pool needs at least one slot per pod, and its largest number
  of pods may not be below its least.
-/

import TaskFleet.LocalCommand.Basic
import TaskFleet.World

namespace TaskFleet

/-! ## Sections -/

structure StoreSection where
  path : String := "/var/lib/runplane/runplane.redb"
  deriving DecidableEq, Inhabited

structure DispatchSection where
  workers : UInt64 := 4
  backoffBaseSecs : UInt64 := 5
  backoffMaxSecs : UInt64 := 60
  noAgentsDelaySecs : UInt64 := 15
  noPoolDelaySecs : UInt64 := 10
  localTimeoutSecs : UInt64 := 3600
  claimLeaseSecs : UInt64 := 60
  sweepIntervalSecs : UInt64 := 10
  deriving DecidableEq, Inhabited

structure CapacitySection where
  heartbeatTimeoutSecs : UInt64 := 120
  reservationTtlSecs : UInt64 := 86400
  backendTimeoutSecs : UInt64 := 30
  deriving DecidableEq, Inhabited

structure ScalingSection where
  intervalSecs : UInt64 := 5
  growAbove : Float := 0.8
  shrinkBelow : Float := 0.2
  gracePeriodSecs : UInt64 := 120
  restartBaseSecs : UInt64 := 60
  restartMaxSecs : UInt64 := 600
  maxRestarts : UInt32 := 5
  deriving Inhabited

structure LogSection where
  json : Bool := false
  filter : Option String := none
  deriving DecidableEq, Inhabited

/-- A whole configuration. -/
structure Config where
  store : StoreSection := {}
  dispatch : DispatchSection := {}
  capacity : CapacitySection := {}
  scaling : ScalingSection := {}
  commands : LocalCommands := {}
  log : LogSection := {}
  pools : List AgentPool := []
  workspaces : List Workspace := []
  deriving Inhabited

/-! ## What follows -/

def DispatchSection.settings (d : DispatchSection) : DispatchSettings where
  backoff := ⟨.ofSecs d.backoffBaseSecs, .ofSecs d.backoffMaxSecs⟩
  noAgentsDelay := .ofSecs d.noAgentsDelaySecs
  noPoolDelay := .ofSecs d.noPoolDelaySecs
  localTimeout := .ofSecs d.localTimeoutSecs
  claimLease := .ofSecs d.claimLeaseSecs

def CapacitySection.settings (c : CapacitySection) : CapacitySettings where
  heartbeatTimeoutSecs := c.heartbeatTimeoutSecs
  reservationTtlSecs := c.reservationTtlSecs
  backendTimeout := .ofSecs c.backendTimeoutSecs

def ScalingSection.settings (s : ScalingSection) : ScalingSettings where
  growAbove := s.growAbove
  shrinkBelow := s.shrinkBelow
  restart := {
    grace := .ofSecs s.gracePeriodSecs
    base := .ofSecs s.restartBaseSecs
    longest := .ofSecs s.restartMaxSecs
    maxRestarts := s.maxRestarts }

/-- The settings of an orchestrator that claims tasks under some name. -/
def Config.settings (c : Config) (holder : String) : Settings where
  dispatch := c.dispatch.settings
  capacity := c.capacity.settings
  scaling := c.scaling.settings
  holder := holder

/-! ## Errors -/

/-- Why a configuration is refused. -/
inductive ConfigError where
  /-- The text is not a configuration. -/
  | unreadable
  | noSlots (pool : String)
  | emptyRange (pool : String) (most least : UInt32)
  deriving DecidableEq, Repr

def ConfigError.message : ConfigError → String
  | unreadable => "TOML parse error"
  | noSlots pool => s!"pool {pool}: slots_per_pod must be at least 1"
  | emptyRange pool most least => s!"pool {pool}: max_replicas {most} is below min_replicas {least}"

/-- What is wrong with a pool. -/
def AgentPool.fault? (p : AgentPool) : Option ConfigError :=
  if p.slotsPerPod = 0 then some (.noSlots p.id)
  else if p.maxReplicas < p.minReplicas then some (.emptyRange p.id p.maxReplicas p.minReplicas)
  else none

/-- The configuration, unless one of its pools is at fault. -/
def Config.validate (c : Config) : Except ConfigError Config :=
  match c.pools.findSome? AgentPool.fault? with
  | some e => .error e
  | none => .ok c

end TaskFleet
