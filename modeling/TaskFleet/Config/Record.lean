/-
  TaskFleet.Config.Record — the form in which a configuration is written down.

  A key that is missing takes its default, in every section. Which commands run on this
  machine is written like the rest, but a command needs its program.
-/

import TaskFleet.Config.Basic
import TaskFleet.Record

namespace TaskFleet

open Datum

namespace CommandSpec

def fieldNames : List String := ["program", "args", "working_dir", "per_workspace_dir"]

def toDatum (c : CommandSpec) : Datum :=
  .ofFields [
    ("program", .ofText c.program),
    ("args", .list (c.args.map .ofText)),
    ("working_dir", .ofOption .ofText c.workingDir),
    ("per_workspace_dir", .bool c.perWorkspaceDir)]

def ofDatum? : Decoder CommandSpec := fun s d => do
  let f ← fields? fieldNames s d
  return {
    program := ← required string s f "program"
    args := ← defaulted (listOf string) [] s f "args"
    workingDir := ← optional string s f "working_dir"
    perWorkspaceDir := ← defaulted flag false s f "per_workspace_dir" }

end CommandSpec

namespace LocalCommands

def fieldNames : List String := ["plan", "apply"]

def toDatum (c : LocalCommands) : Datum :=
  .ofFields [
    ("plan", .ofOption CommandSpec.toDatum c.plan),
    ("apply", .ofOption CommandSpec.toDatum c.apply)]

def ofDatum? : Decoder LocalCommands := fun s d => do
  let f ← fields? fieldNames s d
  return {
    plan := ← optional CommandSpec.ofDatum? s f "plan"
    apply := ← optional CommandSpec.ofDatum? s f "apply" }

end LocalCommands

namespace StoreSection

def fieldNames : List String := ["path"]

def toDatum (c : StoreSection) : Datum := .ofFields [("path", .ofText c.path)]

def ofDatum? : Decoder StoreSection := fun s d => do
  let f ← fields? fieldNames s d
  let defaults : StoreSection := {}
  return { path := ← defaulted string defaults.path s f "path" }

end StoreSection

namespace DispatchSection

def fieldNames : List String :=
  ["workers", "backoff_base_secs", "backoff_max_secs", "no_agents_delay_secs", "no_pool_delay_secs",
    "local_timeout_secs", "claim_lease_secs", "sweep_interval_secs"]

def toDatum (c : DispatchSection) : Datum :=
  .ofFields [
    ("workers", .ofWord c.workers),
    ("backoff_base_secs", .ofWord c.backoffBaseSecs),
    ("backoff_max_secs", .ofWord c.backoffMaxSecs),
    ("no_agents_delay_secs", .ofWord c.noAgentsDelaySecs),
    ("no_pool_delay_secs", .ofWord c.noPoolDelaySecs),
    ("local_timeout_secs", .ofWord c.localTimeoutSecs),
    ("claim_lease_secs", .ofWord c.claimLeaseSecs),
    ("sweep_interval_secs", .ofWord c.sweepIntervalSecs)]

def ofDatum? : Decoder DispatchSection := fun s d => do
  let f ← fields? fieldNames s d
  let defaults : DispatchSection := {}
  return {
    workers := ← defaulted word defaults.workers s f "workers"
    backoffBaseSecs := ← defaulted word defaults.backoffBaseSecs s f "backoff_base_secs"
    backoffMaxSecs := ← defaulted word defaults.backoffMaxSecs s f "backoff_max_secs"
    noAgentsDelaySecs := ← defaulted word defaults.noAgentsDelaySecs s f "no_agents_delay_secs"
    noPoolDelaySecs := ← defaulted word defaults.noPoolDelaySecs s f "no_pool_delay_secs"
    localTimeoutSecs := ← defaulted word defaults.localTimeoutSecs s f "local_timeout_secs"
    claimLeaseSecs := ← defaulted word defaults.claimLeaseSecs s f "claim_lease_secs"
    sweepIntervalSecs := ← defaulted word defaults.sweepIntervalSecs s f "sweep_interval_secs" }

end DispatchSection

namespace CapacitySection

def fieldNames : List String := ["heartbeat_timeout_secs", "reservation_ttl_secs", "backend_timeout_secs"]

def toDatum (c : CapacitySection) : Datum :=
  .ofFields [
    ("heartbeat_timeout_secs", .ofWord c.heartbeatTimeoutSecs),
    ("reservation_ttl_secs", .ofWord c.reservationTtlSecs),
    ("backend_timeout_secs", .ofWord c.backendTimeoutSecs)]

def ofDatum? : Decoder CapacitySection := fun s d => do
  let f ← fields? fieldNames s d
  let defaults : CapacitySection := {}
  return {
    heartbeatTimeoutSecs := ← defaulted word defaults.heartbeatTimeoutSecs s f "heartbeat_timeout_secs"
    reservationTtlSecs := ← defaulted word defaults.reservationTtlSecs s f "reservation_ttl_secs"
    backendTimeoutSecs := ← defaulted word defaults.backendTimeoutSecs s f "backend_timeout_secs" }

end CapacitySection

namespace ScalingSection

def fieldNames : List String :=
  ["interval_secs", "scale_up_utilization", "scale_down_utilization", "grace_period_secs",
    "restart_base_backoff_secs", "restart_max_backoff_secs", "max_restarts"]

def toDatum (c : ScalingSection) : Datum :=
  .ofFields [
    ("interval_secs", .ofWord c.intervalSecs),
    ("scale_up_utilization", .ofReal c.growAbove),
    ("scale_down_utilization", .ofReal c.shrinkBelow),
    ("grace_period_secs", .ofWord c.gracePeriodSecs),
    ("restart_base_backoff_secs", .ofWord c.restartBaseSecs),
    ("restart_max_backoff_secs", .ofWord c.restartMaxSecs),
    ("max_restarts", .whole c.maxRestarts.toNat)]

def ofDatum? : Decoder ScalingSection := fun s d => do
  let f ← fields? fieldNames s d
  let defaults : ScalingSection := {}
  return {
    intervalSecs := ← defaulted word defaults.intervalSecs s f "interval_secs"
    growAbove := ← defaulted double defaults.growAbove s f "scale_up_utilization"
    shrinkBelow := ← defaulted double defaults.shrinkBelow s f "scale_down_utilization"
    gracePeriodSecs := ← defaulted word defaults.gracePeriodSecs s f "grace_period_secs"
    restartBaseSecs := ← defaulted word defaults.restartBaseSecs s f "restart_base_backoff_secs"
    restartMaxSecs := ← defaulted word defaults.restartMaxSecs s f "restart_max_backoff_secs"
    maxRestarts := ← defaulted word32 defaults.maxRestarts s f "max_restarts" }

end ScalingSection

namespace LogSection

def fieldNames : List String := ["json", "filter"]

def toDatum (c : LogSection) : Datum :=
  .ofFields [("json", .bool c.json), ("filter", .ofOption .ofText c.filter)]

def ofDatum? : Decoder LogSection := fun s d => do
  let f ← fields? fieldNames s d
  return {
    json := ← defaulted flag false s f "json"
    filter := ← optional string s f "filter" }

end LogSection

namespace Config

def fieldNames : List String :=
  ["store", "dispatch", "capacity", "autoscale", "local", "log", "pools", "workspaces"]

def toDatum (c : Config) : Datum :=
  .ofFields [
    ("store", c.store.toDatum),
    ("dispatch", c.dispatch.toDatum),
    ("capacity", c.capacity.toDatum),
    ("autoscale", c.scaling.toDatum),
    ("local", c.commands.toDatum),
    ("log", c.log.toDatum),
    ("pools", .list (c.pools.map AgentPool.toDatum)),
    ("workspaces", .list (c.workspaces.map Workspace.toDatum))]

def ofDatum? : Decoder Config := fun s d => do
  let f ← fields? fieldNames s d
  return {
    store := ← defaulted StoreSection.ofDatum? {} s f "store"
    dispatch := ← defaulted DispatchSection.ofDatum? {} s f "dispatch"
    capacity := ← defaulted CapacitySection.ofDatum? {} s f "capacity"
    scaling := ← defaulted ScalingSection.ofDatum? {} s f "autoscale"
    commands := ← defaulted LocalCommands.ofDatum? {} s f "local"
    log := ← defaulted LogSection.ofDatum? {} s f "log"
    pools := ← defaulted (listOf AgentPool.ofDatum?) [] s f "pools"
    workspaces := ← defaulted (listOf Workspace.ofDatum?) [] s f "workspaces" }

end Config

end TaskFleet
