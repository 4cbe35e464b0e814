/-
  TaskFleet.Orchestrator — one orchestrator over its store, pods, agents and queue.

  Start-up stores the configured pools and workspaces, puts the store in order and gives
  every Kubernetes pool its first pods; then the queue, the sweep and the scaling run until
  they are told to stop. Operators submit tasks and confirm applies.
-/

import TaskFleet.Config.Basic
import TaskFleet.Dispatch.Completion
import TaskFleet.Service

namespace TaskFleet

/-- An orchestrator: its configuration, the settings it works by and the operating system
    that starts its commands. -/
structure Orchestrator where
  config : Config := {}
  settings : Settings
  startProgram : CommandSpec → Task → AgentAction → ProgramEnd

namespace Orchestrator

open Fallible

variable (o : Orchestrator)

/-- Stores the configured pools and workspaces, each in place of what is there. -/
def seed : Program World Unit :=
  Program.modify fun w =>
    let store := o.config.pools.foldl (·.putPool ·) w.store
    { w with store := o.config.workspaces.foldl (·.putWorkspace ·) store }

/-- Gives every Kubernetes pool its first pods, as far as that works. -/
def ensurePools : Fallible StoreError Unit := do
  let pools ← ofResult <| Program.readStore (·.listPools)
  always <| Program.forEach
    (fun pool => ignoring (Autoscale.ensurePods o.settings pool.id)) (pools.filter (·.kind == .kubernetes))

/-- Stores a new task and queues its workspace. -/
def submit (t : Task) : Program World Task := do
  let t ← Program.createTask t
  Program.modify (·.trigger t.workspace)
  return t

/-- Notes an operator's confirmation and starts the apply. -/
def confirm (process : Nat) (task : UInt64) (user : String) : Fallible DispatchError DispatchOutcome := do
  let t ← ofResult <| (Except.mapError .store) <$> do
    let now ← Program.get (·.now)
    Program.transact (·.confirmApply task user now)
  Dispatch.executeConfirmedApply o.settings process t.workspace task

/-- Everything that comes before the services. -/
def prepare : Fallible StoreError Unit := do
  always o.seed
  let _ ← Recovery.recover
  o.ensurePools

/-- Starts up, then starts the services; a start-up that fails starts none. It counts as a
    service itself until then. -/
def startUp (shift : Nat) : Program World Unit := do
  if let .ok () ← o.prepare.run then
    Service.startQueue shift o.config.dispatch.workers.toNat
    Service.start shift (.sweep shift (.ofSecs o.config.dispatch.sweepIntervalSecs))
    Service.start shift (.scale shift (.ofSecs o.config.scaling.intervalSecs))
  Service.leave shift

/-- Starts up, works for some time and stops. -/
def runFor (d : Duration) : Program World Unit := do
  let _ ← Service.runFor d fun shift => Service.start shift (.startUp shift)

/-- One turn of a job, as a process; whether there is another turn. -/
def turn (process : Nat) : Job → Program World Bool
  | .runLocal t => do
    Dispatch.runLocal o.settings o.startProgram t
    return false
  | .fireHook hook task => do
    Dispatch.fireHook hook task
    return false
  | .ensurePods pool => do
    ignoring (Autoscale.ensurePods o.settings pool)
    return false
  | .dispatch attempt workspace => do
    let result ← (Dispatch.tryDispatch o.settings process workspace).run.attempt
    Program.modify (·.endAttempt attempt result)
    return false
  | .confirmedApply attempt workspace task => do
    let result ← (Dispatch.executeConfirmedApply o.settings process workspace task).run.attempt
    Program.modify (·.endAttempt attempt result)
    return false
  | .driveQueue shift => Service.driverTurn shift
  | .work shift => Service.workerTurn o.settings process shift
  | .sweep shift interval => Service.sweeperTurn shift interval
  | .scale shift interval => Service.scalerTurn o.settings shift interval
  | .startUp shift => do
    o.startUp shift
    return false

end Orchestrator

end TaskFleet
