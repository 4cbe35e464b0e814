/-
  TaskFleet.Dispatch.Completion — what follows when a task's work is over, and the work of
  tasks on this machine.

  A task that waits for its apply keeps its slot. A task that is over frees its slot, fires
  its hooks and has its workspace handled again. A local execution that leaves its task
  running, whatever the reason, ends it as failed.
-/

import TaskFleet.Dispatch.Claim
import TaskFleet.Capacity.Reconcile

namespace TaskFleet

/-- The hooks that a finished task fires. -/
def Task.hooks (t : Task) : List Hook :=
  (if t.status = .applied then [.runTriggers] else [])
    ++ (if t.kind = .driftCheck then [.driftResult] else [])
    ++ (if t.kind = .planAndApply ∧ (t.status = .applied ∨ t.status = .failed) then [.inventorySync] else [])

namespace Dispatch

open Fallible

/-- Looks after a task whose work may be over. -/
def onTaskCompleted (task : UInt64) : Fallible DispatchError Unit := do
  let found ← ofResult <| (Except.mapError .store) <$> Program.readStore (·.task? task)
  let some t := found | throw (.taskNotFound task)
  if t.status = .applyPending then
    always <| ignoring (Capacity.reserveTask task)
  else if t.status.isTerminal then
    always <| ignoring (Capacity.releaseTask task)
    always <| Program.modify fun w => t.hooks.foldl (fun w hook => w.spawn (.fireHook hook t.id)) w
    always <| Program.modify (·.trigger t.workspace)

/-- What an execution that ended has to say about a task it left running. -/
def noFinalStatus : String := "execution ended without a final status"

/-- What is said about a task whose execution took too long. -/
def timedOut (limit : Duration) : String := s!"execution timed out after {limit.secs}s"

/-- What the work on a claimed task on this machine does. -/
def localAction (t : Task) : AgentAction := if t.stage = some .applying then .apply else .plan

/-- Carries out a task and gives the failure, if it failed. -/
def carryOut (cfg : Settings) (start : CommandSpec → Task → AgentAction → ProgramEnd) (t : Task) :
    Program World (Option String) := do
  let result ← Program.apply fun w =>
    match w.executor.execute start (localAction t) t w.now w.store with
    | some (result, store) => (some result, { w with store })
    | none => (none, w)
  match result with
  | some (.ok ()) => return none
  | some (.error e) => return some e.message
  | none =>
    Program.sleep cfg.dispatch.localTimeout
    return some (timedOut cfg.dispatch.localTimeout)

/-- Ends a task that its execution left running. -/
def failIfStillRunning (task : UInt64) (failure : Option String) : Fallible DispatchError Unit := do
  let found ← ofResult <| (Except.mapError .store) <$> Program.readStore (·.task? task)
  let some current := found | throw (.taskNotFound task)
  if current.status = .running then
    let now ← always <| Program.get (·.now)
    let _ ← ofResult <| (Except.mapError .store) <$>
      Program.transact (·.updateTask task (Task.failIfRunning (failure.getD noFinalStatus) now))

/-- The whole work of a claimed task on this machine. -/
def runLocal (cfg : Settings) (start : CommandSpec → Task → AgentAction → ProgramEnd) (t : Task) :
    Program World Unit := do
  let failure ← carryOut cfg start t
  ignoring (failIfStillRunning t.id failure)
  ignoring (onTaskCompleted t.id)

/-- Waits for the attempts that run beside the caller and takes their results. -/
def joinAttempts : Program World (List (Except String (Except DispatchError DispatchOutcome))) := do
  Program.waitFor fun w => w.openAttempts == 0
  Program.apply fun w => (w.attempts.filterMap id, { w with attempts := [] })

/-- Tells the outside about a finished task. -/
def fireHook (hook : Hook) (task : UInt64) : Program World Unit :=
  Program.modify fun w => { w with hooks := w.hooks ++ [(task, hook)] }

end Dispatch

end TaskFleet
