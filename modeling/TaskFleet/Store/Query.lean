/-
  TaskFleet.Store.Query — what is waiting, what is in the way, and what a pool has to do.

  Rows are visited in ID order. `nextTask` picks the task to start next in a workspace:
  the oldest pending exclusive task unless an earlier one is still active, then the oldest
  plan, then the oldest drift check.
-/

import TaskFleet.Store.Basic

namespace TaskFleet

/-- The first record that a test keeps; rows behind it are not read. -/
def firstRecord {α : Type} (keep : α → Bool) : List (String × Row α) → Except StoreError (Option α)
  | [] => .ok none
  | (_, row) :: rest => do
    let a ← row.read
    if keep a then return some a else firstRecord keep rest

/-- The list without repetitions, first occurrences kept. -/
def firstOccurrences (names : List String) : List String :=
  names.foldl (fun seen n => if seen.contains n then seen else seen ++ [n]) []

/-- What the tasks routed to a pool ask of it. The numbers count rows of one listing; they become
    words where something is worked out from them. -/
structure PoolWorkload where
  running : Nat := 0
  applyPending : Nat := 0
  pending : Nat := 0
  /-- Pending tasks with no earlier active task in their workspace. -/
  unblockedPending : Nat := 0
  unblockedPendingApply : Nat := 0
  applyPendingTasks : List UInt64 := []
  /-- The workspaces with a pending task, by their oldest one. -/
  pendingWorkspaces : List String := []
  deriving DecidableEq, Repr, Inhabited

namespace PoolWorkload

/-- Tasks that started and are not over. -/
def inFlight (w : PoolWorkload) : Nat := w.running + w.applyPending

/-- Counts one task; `busy` are the workspaces in which an earlier task is active. -/
def count (w : PoolWorkload) (busy : List String) (t : Task) : PoolWorkload :=
  match t.status with
  | .running => { w with running := w.running + 1 }
  | .applyPending =>
    { w with applyPending := w.applyPending + 1, applyPendingTasks := w.applyPendingTasks ++ [t.id] }
  | .pending =>
    let unblocked := !busy.contains t.workspace
    { w with
      pending := w.pending + 1
      unblockedPending := w.unblockedPending + unblocked.toNat
      unblockedPendingApply := w.unblockedPendingApply + (unblocked && t.kind == .planAndApply).toNat
      pendingWorkspaces :=
        if w.pendingWorkspaces.contains t.workspace then w.pendingWorkspaces
        else w.pendingWorkspaces ++ [t.workspace] }
  | _ => w

/-- Counts tasks that come in ID order. -/
def countAll (w : PoolWorkload) (busy : List String) : List Task → PoolWorkload
  | [] => w
  | t :: ts => countAll (w.count busy t) (if t.status.isActive then t.workspace :: busy else busy) ts

end PoolWorkload

namespace Store

variable (s : Store)

/-- The pending task of a kind with the lowest ID in a workspace. -/
def oldestPending (workspace : String) (kind : TaskKind) : Except StoreError (Option Task) :=
  firstRecord (fun t => t.workspace == workspace && t.kind == kind && t.status == .pending) s.tasks.rows

/-- Whether an exclusive task of the workspace with a lower ID is still active. -/
def hasBlocking (workspace : String) (before : UInt64) : Except StoreError Bool :=
  (s.tasksWhere fun t => t.workspace == workspace && t.id < before && t.isActiveExclusive).map (!·.isEmpty)

/-- The workspaces with a pending task, by their oldest one. -/
def workspacesWithPending : Except StoreError (List String) :=
  (s.tasksWhere (·.status == .pending)).map fun ts => firstOccurrences (ts.map (·.workspace))

/-- The task to start next in a workspace. -/
def nextTask (workspace : String) : Except StoreError (Option Task) := do
  let some w ← s.workspace? workspace | return none
  if w.isLocked then return none
  if let some t ← s.oldestPending workspace .planAndApply then
    unless ← s.hasBlocking workspace t.id do return some t
  if let some t ← s.oldestPending workspace .plan then return some t
  s.oldestPending workspace .driftCheck

/-- The workspaces whose tasks run on a Kubernetes pool. -/
def poolMembers (pool : String) : Except StoreError (List String) :=
  s.listWorkspaces.map fun ws =>
    (ws.filter fun w => w.mode == .kubernetes && w.pool == some pool).map (·.id)

/-- What the tasks of a pool's workspaces ask of it. -/
def poolWorkload (pool : String) : Except StoreError PoolWorkload := do
  let members ← s.poolMembers pool
  if members.isEmpty then return {}
  let tasks ← s.tasksWhere fun t => members.contains t.workspace
  return PoolWorkload.countAll {} [] tasks

end Store

end TaskFleet
