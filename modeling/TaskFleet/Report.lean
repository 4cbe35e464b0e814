/-
  TaskFleet.Report — the form in which the state of a running orchestrator is shown.

  Every value is a record with all of its fields; what is absent is null. Nothing here is
  read back.
-/

import TaskFleet.Autoscale.Freeze
import TaskFleet.Datum.Basic
import TaskFleet.Record
import TaskFleet.Recovery

namespace TaskFleet

namespace Datum

def ofNat (n : Nat) : Datum := .whole n

def ofWord32 (n : UInt32) : Datum := .whole n.toNat

def ofList {α : Type} (write : α → Datum) (l : List α) : Datum := .list (l.map write)

def ofTexts : List String → Datum := ofList ofText

end Datum

open Datum

def Duration.toDatum (d : Duration) : Datum := ofFields [("secs", ofWord d.secs), ("nanos", ofWord32 d.subsecNanos)]

/-! ## Pods -/

def Slot.toDatum (s : Slot) : Datum :=
  ofFields [
    ("index", ofNat s.index),
    ("status", ofText s.status.name),
    ("task_id", ofOption ofWord s.task),
    ("task_kind", ofOption ofCase s.kind),
    ("updated_at", ofWord s.updatedAt)]

namespace Pod

def fields (p : Pod) : List (String × Datum) := [
  ("name", ofText p.name),
  ("pool_id", ofText p.pool),
  ("agent_id", ofOption ofText p.agent),
  ("created_at", ofWord p.createdAt),
  ("last_heartbeat", ofWord p.lastHeartbeat),
  ("slots", ofList Slot.toDatum p.slots)]

def toDatum (p : Pod) : Datum := ofFields p.fields

/-- A pod with what its slots come to. -/
def toDatumInPool (p : Pod) : Datum :=
  ofFields (p.fields ++ [("fully_idle", .bool p.isFullyIdle), ("has_running", .bool p.hasRunning)])

end Pod

def Placement.toDatum (p : Placement) : Datum :=
  ofFields [("pod", ofText p.pod), ("slot", ofNat p.slot), ("agent_id", ofOption ofText p.agent)]

def SlotStats.toDatum (s : SlotStats) : Datum :=
  ofFields [
    ("total", ofWord32 s.total),
    ("used", ofWord32 s.used),
    ("reserved", ofWord32 s.reserved),
    ("idle", ofWord32 s.idle)]

def CapacitySettings.toDatum (s : CapacitySettings) : Datum :=
  ofFields [
    ("heartbeat_timeout_secs", ofWord s.heartbeatTimeoutSecs),
    ("reservation_ttl_secs", ofWord s.reservationTtlSecs),
    ("backend_timeout", s.backendTimeout.toDatum)]

/-! ## Agents -/

def AgentStatus.toDatum (s : AgentStatus) : Datum :=
  ofFields [
    ("plan_running", ofWord32 s.planRunning),
    ("plan_limit", ofWord32 s.planLimit),
    ("apply_running", .bool s.applyRunning)]

/-- A message as the list of its parts. -/
def AgentMessage.toDatum (m : AgentMessage) : Datum := .list [ofWord m.task, ofText m.workspace, ofCase m.action]

/-- The connected agents, by name. -/
def Registry.toDatum (r : Registry) : Datum :=
  ofList
    (fun (agent, c) =>
      ofFields [("agent_id", ofText agent), ("pool_id", ofOption ofText c.pool), ("status", c.status.toDatum)])
    r.connections.rows

/-! ## Work -/

/-- What an operator looks at first: which task it is and what has become of it. -/
def Task.summary (t : Task) : Datum :=
  ofFields [
    ("id", ofWord t.id),
    ("workspace_id", ofText t.workspace),
    ("kind", ofCase t.kind),
    ("status", ofCase t.status),
    ("stage", ofOption ofCase t.stage),
    ("agent_id", ofOption ofText t.agent),
    ("error_message", ofOption ofText t.errorMessage),
    ("apply_confirmed_by", ofOption ofText t.confirmedBy),
    ("origin", ofCase t.origin),
    ("completed", .bool t.completedAt.isSome),
    ("leased", .bool t.lease.isSome)]

def DispatchSettings.toDatum (s : DispatchSettings) : Datum :=
  ofFields [
    ("base", s.backoff.base.toDatum),
    ("max", s.backoff.longest.toDatum),
    ("no_agents", s.noAgentsDelay.toDatum),
    ("no_pool", s.noPoolDelay.toDatum),
    ("local_timeout", s.localTimeout.toDatum),
    ("claim_lease", s.claimLease.toDatum)]

def Claim.toDatum : Claim → Datum
  | .claimed t => ofFields [("claim", ofText "claimed"), ("task", t.toDatum)]
  | .moved s => ofFields [("claim", ofText "moved"), ("status", ofCase s)]
  | .leased holder => ofFields [("claim", ofText "leased"), ("holder", ofText holder)]
  | .workspaceLocked => ofFields [("claim", ofText "workspace_locked")]
  | .blocked other => ofFields [("claim", ofText "blocked"), ("by", ofWord other)]
  | .tooLong => ofFields [("claim", ofText "too_long")]

def PoolWorkload.toDatum (w : PoolWorkload) : Datum :=
  ofFields [
    ("running", ofNat w.running),
    ("apply_pending", ofNat w.applyPending),
    ("pending", ofNat w.pending),
    ("unblocked_pending", ofNat w.unblockedPending),
    ("unblocked_pending_apply", ofNat w.unblockedPendingApply),
    ("apply_pending_task_ids", ofList ofWord w.applyPendingTasks),
    ("pending_workspaces", ofTexts w.pendingWorkspaces),
    ("in_flight", ofNat w.inFlight)]

def DispatchOutcome.toDatum : DispatchOutcome → Datum
  | .idle => ofFields [("outcome", ofText "idle")]
  | .skipped task => ofFields [("outcome", ofText "skipped"), ("task_id", ofWord task)]
  | .started task agent =>
    ofFields [("outcome", ofText "started"), ("task_id", ofWord task), ("agent_id", ofOption ofText agent)]
  | .retry task delay reason =>
    ofFields [
      ("outcome", ofText "retry"),
      ("task_id", ofWord task),
      ("delay", delay.toDatum),
      ("reason", ofText reason.name)]

def RecoveryReport.toDatum (r : RecoveryReport) : Datum :=
  ofFields [
    ("restored", ofList ofWord r.restored),
    ("failed", ofList ofWord r.failed),
    ("cancelled", ofList ofWord r.cancelled),
    ("apply_pending", ofNat r.applyPending),
    ("triggered", ofTexts r.triggered)]

/-- How often each of these workspaces occurs. -/
def tally (workspaces : List String) : Datum :=
  ofFields ((firstOccurrences workspaces).map fun ws => (ws, ofNat (workspaces.count ws)))

/-! ## Scaling -/

def FreezeStatus.toDatum (s : FreezeStatus) : Datum :=
  ofFields [("status", ofText s.name), ("frozen", .bool s.isFrozen), ("reason", ofOption ofText s.reason?)]

def RestartPolicy.toDatum (p : RestartPolicy) : Datum :=
  ofFields [
    ("grace", p.grace.toDatum),
    ("base", p.base.toDatum),
    ("max", p.longest.toDatum),
    ("max_restarts", ofWord32 p.maxRestarts)]

def RestartInfo.toDatum (h : RestartInfo) : Datum :=
  ofFields [
    ("restart_count", ofWord32 h.count),
    ("last_restart_at", ofOption ofWord h.lastAt),
    ("first_unhealthy_at", ofWord h.firstUnhealthyAt)]

def RestartDecision.toDatum : RestartDecision → Datum
  | .restart attempt => ofFields [("restart", ofWord32 attempt)]
  | .backoff remaining => ofFields [("backoff", remaining.toDatum)]
  | .giveUp count first => ofFields [("give_up", ofWord32 count), ("first_unhealthy_at", ofWord first)]

/-! ## The whole -/

namespace World

variable (w : World)

/-- Whether a workspace is stored or a readable task names it. -/
def knows (workspace : String) : Bool :=
  w.store.workspaces.contains workspace ||
    w.store.tasks.values.any fun
      | .record t => t.workspace == workspace
      | .unreadable _ => false

/-- The queue, as far as its workspaces are known. -/
def queueDatum : Datum :=
  ofFields [
    ("at", ofFields ((w.queue.deadlines.rows.filter (w.knows ·.1)).map fun (ws, deadline) => (ws, ofWord deadline))),
    ("len", ofNat w.queue.size)]

/-- The fired hooks in the order of their tasks. -/
def hooksDatum : Datum :=
  ofList (fun (task, hook) => .list [ofWord task, ofText hook.name])
    (sortBy (fun a b => a.1 < b.1 || (a.1 == b.1 && decide (a.2.name ≤ b.2.name))) w.hooks)

/-- Everything that can be seen from outside. -/
def toDatum : Except StoreError Datum := do
  let tasks ← w.store.listTasks
  let pools ← w.store.listPools
  return ofFields [
    ("now_ms", ofWord w.clock),
    ("tasks", ofList Task.toDatum tasks),
    ("pods", ofFields (pools.map fun p => (p.id, ofList Pod.toDatum (w.capacity.podsIn p.id)))),
    ("queue", w.queueDatum),
    ("agents", w.registry.toDatum),
    ("backend", ofTexts w.cluster.pods.keys)]

end World

end TaskFleet
