/-
  TaskFleet.Recovery — putting the store in order at start-up, and the sweep that keeps
  pending work from being forgotten.

  After a restart, a running task that nobody has a lease on goes back to waiting for its
  apply if it had come that far, and otherwise has failed; pending tasks that another run
  triggered are cancelled. A sweep takes back claims that ran out and queues every workspace
  with pending work.
-/

import TaskFleet.Capacity.Reconcile

namespace TaskFleet

/-- What start-up found and did. -/
structure RecoveryReport where
  restored : List UInt64
  failed : List UInt64
  cancelled : List UInt64
  /-- The tasks that wait for their apply. -/
  applyPending : Nat
  /-- The workspaces that were queued. -/
  triggered : List String
  deriving DecidableEq, Repr

namespace Task

def interruptedMessage : String := "Task interrupted by server restart"

def triggerCancelledMessage : String := "Cancelled on server restart: run-trigger tasks are not recovered"

/-- An interrupted task that had finished its plan waits for its apply again. -/
def restore (t : Task) : Except StoreError Task :=
  (t.move .applyPending).map fun t => { t with agent := none, lease := none }

def failInterrupted (now : UInt64) (t : Task) : Except StoreError Task :=
  { t with errorMessage := some interruptedMessage }.conclude .failed now

def cancelTriggered (now : UInt64) (t : Task) : Except StoreError Task :=
  { t with errorMessage := some triggerCancelledMessage }.conclude .cancelled now

end Task

namespace StoreProgram

/-- Restores or fails each of these running tasks; a task with a good lease is left alone. -/
def cleanEach (now : UInt64) : List Task → StoreProgram (List UInt64 × List UInt64)
  | [] => return ([], [])
  | t :: rest => do
    if t.isLeasedAt now then cleanEach now rest
    else if t.stage = some .applyPending then
      let _ ← transaction (·.updateTask t.id Task.restore)
      let (restored, failed) ← cleanEach now rest
      return (t.id :: restored, failed)
    else
      let _ ← transaction (·.updateTask t.id (Task.failInterrupted now))
      let (restored, failed) ← cleanEach now rest
      return (restored, t.id :: failed)

/-- Deals with the running tasks that nobody works on: those restored and those failed. -/
def cleanOrphans (now : UInt64) : StoreProgram (List UInt64 × List UInt64) := do
  cleanEach now (← read (·.tasksWhere (·.status == .running)))

/-- Cancels each of these tasks. -/
def cancelEach (now : UInt64) : List Task → StoreProgram (List UInt64)
  | [] => return []
  | t :: rest => do
    let _ ← transaction (·.updateTask t.id (Task.cancelTriggered now))
    return t.id :: (← cancelEach now rest)

/-- Cancels the pending tasks that another run triggered. -/
def cancelRunTriggers (now : UInt64) : StoreProgram (List UInt64) := do
  let pending ← read (·.tasksWhere (·.status == .pending))
  cancelEach now (pending.filter (·.origin == .runTrigger))

/-- Adds the workspaces of those of these tasks that wait for their apply. -/
def addWaiting (workspaces : List String) : List UInt64 → StoreProgram (List String)
  | [] => return workspaces
  | id :: rest => do
    let waiting := (← read (·.task? id)).filter (·.status == .applyPending)
    addWaiting
      (match waiting with
        | some t => if workspaces.contains t.workspace then workspaces else workspaces ++ [t.workspace]
        | none => workspaces)
      rest

end StoreProgram

namespace Recovery

open Fallible

/-- A program over the store, in the world. -/
def onStore {α : Type} (p : StoreProgram α) : Fallible StoreError α := ofResult (Program.onStore p.run)

/-- Queues each of these workspaces for now. -/
def trigger (workspaces : List String) : Program World Unit :=
  Program.forEach (fun ws => Program.modify (·.trigger ws)) workspaces

/-- Puts the store in order and queues every workspace with work that can start. -/
def recover : Fallible StoreError RecoveryReport := do
  let now ← always <| Program.get (·.now)
  let (restored, failed) ← onStore (StoreProgram.cleanOrphans now)
  let cancelled ← onStore (StoreProgram.cancelRunTriggers now)
  let pending ← onStore (StoreProgram.read (·.workspacesWithPending))
  let parked ← onStore (StoreProgram.read (·.tasksWhere (·.status == .applyPending)))
  let triggered := firstOccurrences (pending ++ (parked.filter (·.isApplyConfirmed)).map (·.workspace))
  always <| trigger triggered
  return { restored, failed, cancelled, applyPending := parked.length, triggered }

/-- Takes back claims that ran out and queues every workspace with pending work; answers how
    many that were. -/
def sweep (now : UInt64) : Fallible StoreError Nat := do
  let reclaimed ← onStore (StoreProgram.reclaimExpired now)
  let pending ← onStore (StoreProgram.read (·.workspacesWithPending))
  let workspaces ← onStore (StoreProgram.addWaiting pending reclaimed)
  always <| trigger workspaces
  return workspaces.length

end Recovery

end TaskFleet
