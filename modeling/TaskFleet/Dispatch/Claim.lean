/-
  TaskFleet.Dispatch.Claim — what a dispatcher writes to the row of the task it starts.

  A dispatcher claims the task in the status in which it saw it, then either settles the
  claim, once the task is on its way, or rolls it back to the row it saw.
-/

import TaskFleet.World

namespace TaskFleet

namespace Task

/-- How far a task comes by being started now. -/
def stageOnStart (t : Task) : Stage := if t.status = .applyPending then .applying else .planning

/-- The row of a task that is started for an agent, or on this machine. -/
def start (stage : Stage) (agent : Option String) (now : UInt64) (t : Task) : Task :=
  { t with stage := some stage, agent, startedAt := some now }

/-- The row of a task that is on its way: no failed attempts, and no lease of this holder. -/
def settle (holder : String) (t : Task) : Task :=
  { t with
    retryCount := 0
    lease := if t.lease.any (·.holder == holder) then none else t.lease }

/-- A running row as it was seen before it was claimed; a row that does not run is kept. -/
def rollBack (previous t : Task) : Except StoreError Task :=
  if t.status ≠ .running then .ok t
  else (t.move previous.status).map fun t =>
    { t with agent := none, lease := none, stage := previous.stage, startedAt := previous.startedAt }

/-- One more failed attempt, as far as 32 bits count. -/
def countRetry (t : Task) : Task :=
  { t with retryCount := if t.retryCount = 0xFFFFFFFF then t.retryCount else t.retryCount + 1 }

/-- The end of a row that still runs after its execution: failed, for the reason that is on
    it, or else for this one. -/
def failIfRunning (reason : String) (now : UInt64) (t : Task) : Except StoreError Task :=
  if t.status ≠ .running then .ok t
  else { t with errorMessage := some (t.errorMessage.getD reason) }.conclude .failed now

end Task

namespace Dispatch

variable (cfg : Settings)

/-- The claim a dispatcher makes on a task in the status it saw. -/
def claimRequest (seen : Task) (now : UInt64) : ClaimRequest where
  expected := seen.status
  holder := cfg.holder
  leaseSecs := cfg.dispatch.claimLease.secs
  now := now

/-- Claims a task for an agent, or for this machine; none if it cannot be had. -/
def claim (seen : Task) (agent : Option String) : Program World (Except StoreError (Option Task)) := do
  let now ← Program.get (·.now)
  let result ← Program.claimTask seen.id (claimRequest cfg seen now) (Task.start seen.stageOnStart agent now)
  return result.map fun c =>
    match c with
    | .claimed t => some t
    | _ => none

/-- Changes a row if that is possible. -/
def tryUpdate (id : UInt64) (change : Task → Except StoreError Task) : Program World Unit := do
  let _ ← Program.transact (·.updateTask id change)

/-- Notes that a claimed task is on its way. -/
def settle (task : UInt64) : Program World Unit := tryUpdate task fun t => .ok (t.settle cfg.holder)

/-- Gives a claimed task back. -/
def rollBack (seen : Task) : Program World Unit := tryUpdate seen.id (Task.rollBack seen)

/-- Queues a task's workspace for a fixed time from now. -/
def retryAfter (seen : Task) (delay : Duration) (reason : RetryReason) : Program World DispatchOutcome := do
  Program.schedule seen.workspace delay
  return .retry seen.id delay reason

/-- Queues a task's workspace for a time that grows with the failed attempts, and counts one. -/
def retryWithBackoff (seen : Task) (reason : RetryReason) : Program World DispatchOutcome := do
  let delay := cfg.dispatch.backoff.delay seen.retryCount
  tryUpdate seen.id fun t => .ok t.countRetry
  retryAfter seen delay reason

end Dispatch

end TaskFleet
