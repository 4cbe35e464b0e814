/-
  TaskFleet.Record — the form in which tasks, workspaces and pools are written down.

  A record's fields are written in one order, absent values as null. Reading gives a field
  that is left out its default where it has one, so rows written before a field existed
  still read.
-/

import TaskFleet.Datum.Decode
import TaskFleet.Task.Basic
import TaskFleet.Workspace

namespace TaskFleet

open Datum

/-- Writes a case as its name. -/
def Datum.ofCase {α : Type} [Named α] (a : α) : Datum := .ofText (Named.name a)

namespace Lease

def fieldNames : List String := ["holder", "locked_at", "expires_at"]

def toDatum (l : Lease) : Datum :=
  .ofFields [("holder", .ofText l.holder), ("locked_at", .ofWord l.lockedAt), ("expires_at", .ofWord l.expiresAt)]

def ofDatum? : Decoder Lease := fun s d => do
  let f ← fields? fieldNames s d
  return {
    holder := ← required string s f "holder"
    lockedAt := ← required word s f "locked_at"
    expiresAt := ← required word s f "expires_at" }

end Lease

namespace Task

def fieldNames : List String :=
  ["id", "workspace_id", "kind", "status", "stage", "agent_id", "retry_count", "apply_confirmed_by",
    "apply_confirmed_at", "origin", "error_message", "created_at", "started_at", "completed_at", "lease"]

def toDatum (t : Task) : Datum :=
  .ofFields [
    ("id", .ofWord t.id),
    ("workspace_id", .ofText t.workspace),
    ("kind", .ofCase t.kind),
    ("status", .ofCase t.status),
    ("stage", .ofOption .ofCase t.stage),
    ("agent_id", .ofOption .ofText t.agent),
    ("retry_count", .whole t.retryCount.toNat),
    ("apply_confirmed_by", .ofOption .ofText t.confirmedBy),
    ("apply_confirmed_at", .ofOption .ofWord t.confirmedAt),
    ("origin", .ofCase t.origin),
    ("error_message", .ofOption .ofText t.errorMessage),
    ("created_at", .ofWord t.createdAt),
    ("started_at", .ofOption .ofWord t.startedAt),
    ("completed_at", .ofOption .ofWord t.completedAt),
    ("lease", .ofOption Lease.toDatum t.lease)]

def ofDatum? : Decoder Task := fun s d => do
  let f ← fields? fieldNames s d
  return {
    id := ← required word s f "id"
    workspace := ← required string s f "workspace_id"
    kind := ← required case s f "kind"
    status := ← required case s f "status"
    stage := ← optional case s f "stage"
    agent := ← optional string s f "agent_id"
    retryCount := ← defaulted word32 0 s f "retry_count"
    confirmedBy := ← optional string s f "apply_confirmed_by"
    confirmedAt := ← optional word s f "apply_confirmed_at"
    origin := ← defaulted case .manual s f "origin"
    errorMessage := ← optional string s f "error_message"
    createdAt := ← required word s f "created_at"
    startedAt := ← optional word s f "started_at"
    completedAt := ← optional word s f "completed_at"
    lease := ← optional Lease.ofDatum? s f "lease" }

end Task

namespace Workspace

def fieldNames : List String := ["workspace_id", "execution_mode", "current_pool_id", "is_locked", "locked_by"]

def toDatum (w : Workspace) : Datum :=
  .ofFields [
    ("workspace_id", .ofText w.id),
    ("execution_mode", .ofCase w.mode),
    ("current_pool_id", .ofOption .ofText w.pool),
    ("is_locked", .bool w.isLocked),
    ("locked_by", .ofOption .ofText w.lockedBy)]

def ofDatum? : Decoder Workspace := fun s d => do
  let f ← fields? fieldNames s d
  return {
    id := ← required string s f "workspace_id"
    mode := ← required case s f "execution_mode"
    pool := ← optional string s f "current_pool_id"
    isLocked := ← defaulted flag false s f "is_locked"
    lockedBy := ← optional string s f "locked_by" }

end Workspace

namespace FreezeSchedule

def fieldNames : List String := ["weekdays", "from_time", "to_time"]

def toDatum (z : FreezeSchedule) : Datum :=
  .ofFields [
    ("weekdays", .list (z.weekdays.map fun d => .whole d.toNat)),
    ("from_time", .ofText z.fromTime),
    ("to_time", .ofText z.toTime)]

def ofDatum? : Decoder FreezeSchedule := fun s d => do
  let f ← fields? fieldNames s d
  return {
    weekdays := ← required (listOf byte) s f "weekdays"
    fromTime := ← required string s f "from_time"
    toTime := ← required string s f "to_time" }

end FreezeSchedule

namespace AgentPool

def fieldNames : List String :=
  ["pool_id", "kind", "min_replicas", "max_replicas", "slots_per_pod", "freeze_schedules",
    "one_time_unfreeze_until"]

def toDatum (p : AgentPool) : Datum :=
  .ofFields [
    ("pool_id", .ofText p.id),
    ("kind", .ofCase p.kind),
    ("min_replicas", .whole p.minReplicas.toNat),
    ("max_replicas", .whole p.maxReplicas.toNat),
    ("slots_per_pod", .whole p.slotsPerPod.toNat),
    ("freeze_schedules", .list (p.freezeSchedules.map FreezeSchedule.toDatum)),
    ("one_time_unfreeze_until", .ofOption .ofWord p.unfreezeUntil)]

def ofDatum? : Decoder AgentPool := fun s d => do
  let f ← fields? fieldNames s d
  return {
    id := ← required string s f "pool_id"
    kind := ← required case s f "kind"
    minReplicas := ← required word32 s f "min_replicas"
    maxReplicas := ← required word32 s f "max_replicas"
    slotsPerPod := ← defaulted word32 defaultSlotsPerPod s f "slots_per_pod"
    freezeSchedules := ← defaulted (listOf FreezeSchedule.ofDatum?) [] s f "freeze_schedules"
    unfreezeUntil := ← optional word s f "one_time_unfreeze_until" }

end AgentPool

end TaskFleet
