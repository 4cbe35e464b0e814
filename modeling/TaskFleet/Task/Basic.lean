/-
  TaskFleet.Task.Basic — the task record and the moves it makes.

  - `moveTo` is the only way a task changes its status by the rules; it fails with
    `BadMove` where `TaskStatus.canMove` has no entry.
  - `key` is the text a task is stored under: its ID in twenty digits, so that keys are
    ordered like IDs.
-/

import TaskFleet.Task.Status
import TaskFleet.Text.Digits

namespace TaskFleet

/-- The right to work on a task, held by one dispatcher for a while. -/
structure Lease where
  holder : String
  lockedAt : UInt64
  expiresAt : UInt64
  deriving DecidableEq, Repr, Inhabited

/-- One piece of work on a workspace. Times are seconds since 1970. -/
structure Task where
  id : UInt64
  workspace : String
  kind : TaskKind
  status : TaskStatus
  stage : Option Stage := none
  /-- The agent it was handed to. -/
  agent : Option String := none
  /-- Failed attempts to start it since one last succeeded. -/
  retryCount : UInt32 := 0
  confirmedBy : Option String := none
  confirmedAt : Option UInt64 := none
  origin : TaskOrigin := .manual
  errorMessage : Option String := none
  createdAt : UInt64
  startedAt : Option UInt64 := none
  completedAt : Option UInt64 := none
  lease : Option Lease := none
  deriving DecidableEq, Repr, Inhabited

/-- A move the table of moves does not have. -/
structure BadMove where
  task : UInt64
  source : TaskStatus
  target : TaskStatus
  deriving DecidableEq, Repr

def BadMove.message (e : BadMove) : String :=
  s!"task {e.task}: invalid transition {e.source.name} -> {e.target.name}"

/-- The text a task is stored under. -/
def taskKey (id : UInt64) : String := String.ofList (Text.fixedWidth 20 id.toNat)

namespace Task

/-- A task as it is submitted, before it has an ID. -/
def submitted (workspace : String) (kind : TaskKind) (createdAt : UInt64) (origin : TaskOrigin) : Task :=
  { id := 0, workspace, kind, status := .pending, origin, createdAt }

def key (t : Task) : String := taskKey t.id

/-- Whether an operator, who has a name, confirmed the apply. -/
def isApplyConfirmed (t : Task) : Bool := t.confirmedBy.any (· != "")

/-- Whether the task has a lease that is still good at `now`. -/
def isLeasedAt (t : Task) (now : UInt64) : Bool := t.lease.any fun l => now < l.expiresAt

/-- Moves to another status, by the table of moves. -/
def moveTo (t : Task) (next : TaskStatus) : Except BadMove Task :=
  if t.status.canMove next then .ok { t with status := next }
  else .error ⟨t.id, t.status, next⟩

/-- Moves to a last status: the time is recorded and the lease ends. -/
def finish (t : Task) (status : TaskStatus) (now : UInt64) : Except BadMove Task :=
  (t.moveTo status).map fun t => { t with completedAt := some now, lease := none }

/-- Whether the task may change its workspace and is not over. -/
def isActiveExclusive (t : Task) : Bool := t.kind == .planAndApply && t.status.isActive

theorem moveTo_eq_ok_iff {t t' : Task} {next : TaskStatus} :
    t.moveTo next = .ok t' ↔ t.status.canMove next = true ∧ t' = { t with status := next } := by
  unfold moveTo
  split
  · next h => simp [h, eq_comm (b := t')]
  · next h => simp [h]

end Task

end TaskFleet
