/-
  TaskFleet.Task.Status — what a task is, where it stands and which moves it may make.

  A task starts `pending`, runs, may wait as `applyPending` for an operator, and ends in one
  of five terminal statuses. `Status.canMove` is the whole table of moves; a terminal status
  has none (`canMove_of_terminal`).
-/

import TaskFleet.Named

namespace TaskFleet

/-- What a task does to its workspace. -/
inductive TaskKind where
  /-- Computes the changes and changes nothing. -/
  | plan
  /-- Computes the changes, waits for an operator and makes them. -/
  | planAndApply
  /-- Looks for differences between the workspace and the world. -/
  | driftCheck
  deriving DecidableEq, Repr, Inhabited

namespace TaskKind

def name : TaskKind → String
  | plan => "plan"
  | planAndApply => "plan_and_apply"
  | driftCheck => "drift_check"

instance : Named TaskKind := ⟨[plan, planAndApply, driftCheck], name⟩

/-- Whether a task of this kind must have its workspace to itself. -/
def isExclusive (k : TaskKind) : Bool := k == planAndApply

end TaskKind

/-- Where a task stands. -/
inductive TaskStatus where
  | pending
  | running
  | applyPending
  | success
  | applied
  | plannedAndFinished
  | failed
  | cancelled
  deriving DecidableEq, Repr, Inhabited

namespace TaskStatus

def name : TaskStatus → String
  | pending => "pending"
  | running => "running"
  | applyPending => "apply_pending"
  | success => "success"
  | applied => "applied"
  | plannedAndFinished => "planned_and_finished"
  | failed => "failed"
  | cancelled => "cancelled"

instance : Named TaskStatus :=
  ⟨[pending, running, applyPending, success, applied, plannedAndFinished, failed, cancelled], name⟩

/-- A terminal task never moves again. -/
def isTerminal : TaskStatus → Bool
  | success | applied | plannedAndFinished | failed | cancelled => true
  | pending | running | applyPending => false

def isActive (s : TaskStatus) : Bool := !s.isTerminal

/-- The moves a task may make. -/
def canMove : TaskStatus → TaskStatus → Bool
  | pending, running | pending, applyPending | pending, cancelled | pending, failed => true
  | running, running => false
  | running, _ => true
  | applyPending, running | applyPending, cancelled | applyPending, failed => true
  | _, _ => false

theorem canMove_of_terminal {s : TaskStatus} (h : s.isTerminal) (next : TaskStatus) :
    s.canMove next = false := by
  cases s <;> simp_all [isTerminal, canMove]

end TaskStatus

/-- How far the work on a task has come. -/
inductive Stage where
  | planning
  | applyPending
  | applying
  deriving DecidableEq, Repr, Inhabited

namespace Stage

def name : Stage → String
  | planning => "planning"
  | applyPending => "apply_pending"
  | applying => "applying"

instance : Named Stage := ⟨[planning, applyPending, applying], name⟩

end Stage

/-- Who asked for a task. -/
inductive TaskOrigin where
  | manual
  | runTrigger
  | schedule
  deriving DecidableEq, Repr, Inhabited

namespace TaskOrigin

def name : TaskOrigin → String
  | manual => "manual"
  | runTrigger => "run_trigger"
  | schedule => "schedule"

instance : Named TaskOrigin := ⟨[manual, runTrigger, schedule], name⟩

end TaskOrigin

end TaskFleet
