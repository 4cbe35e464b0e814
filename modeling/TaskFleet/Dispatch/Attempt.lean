/-
  TaskFleet.Dispatch.Attempt — one attempt to start a workspace's next task.

  An attempt picks a task, finds a place for it, claims it and hands it over. Whatever goes
  wrong after a step, the steps before it are undone and the workspace is queued again. How a
  chosen task is started, and the way on which it is sent, are parameters of the parts.
  - `tryDispatch`: the next task of a workspace, whatever it is.
  - `executeConfirmedApply`: the apply of one task that an operator confirmed.
  Exclusive tasks are started under their workspace's lock; `process` is who holds it.
-/

import TaskFleet.Agent.Channel
import TaskFleet.Dispatch.Claim

namespace TaskFleet

/-- The way on which messages go to agents. -/
abbrev Channel := String → AgentMessage → Fallible SendError Unit

namespace Dispatch

open Fallible

section

variable (send : Channel) (cfg : Settings) (process : Nat)

/-! ## On this machine -/

/-- Claims a task and has it carried out on this machine. -/
def startLocal (t : Task) : Program World DispatchOutcome := do
  match ← claim cfg t none with
  | .error _ => retryWithBackoff cfg t .persistFailed
  | .ok none => return .skipped t.id
  | .ok (some claimed) =>
    settle cfg t.id
    Program.modify (·.spawn (.runLocal claimed))
    return .started t.id none

/-! ## On an agent -/

/-- Gives a slot back. -/
def release (place : Option Placement) : Program World Unit := do
  if let some p := place then
    let _ ← Program.editCapacity (·.release p.pod p.slot ·)

/-- A slot for a task of a pool: the one it has if its apply is due, else a free one. -/
def findSlot (t : Task) (pool : String) : Program World (Option Placement) := do
  let held ← Program.get fun w => if t.status = .applyPending then w.capacity.placementOf? t.id else none
  match held with
  | some p => return some p
  | none => return (← Program.onCapacity (·.allocate cfg.capacity pool t.id t.kind ·)).toOption

/-- The first of these agents on whose pod the task gets a slot. -/
def allocateOnFirst (t : Task) : List String → Program World (Option (String × Placement))
  | [] => return none
  | agent :: rest => do
    match ← Program.onCapacity (·.allocateOnAgent agent t.id t.kind ·) with
    | .ok p => return some (agent, p)
    | .error _ => allocateOnFirst t rest

/-- Where a task goes: an agent, and a slot on its pod if it has one. -/
structure Target where
  agent : String
  place : Option Placement

/-- An agent for a task. A slot whose pod's agent is connected decides; any other slot is
    given back, and the pool's agents are asked in the order of their names. -/
def findTarget (t : Task) (pool : String) (onPods : Bool) (place : Option Placement) (connected : List String) :
    Program World (Option Target) := do
  match (place.bind (·.agent)).filter connected.contains with
  | some agent => return some ⟨agent, place⟩
  | none =>
    release place
    let candidates ← Agent.candidates pool t.kind
    if onPods then
      return (← allocateOnFirst t candidates).map fun (agent, p) => ⟨agent, some p⟩
    else
      return candidates.head?.map fun agent => ⟨agent, none⟩

/-- What an agent is to do with a task in this status. -/
def actionFor (t : Task) : AgentAction := if t.status = .applyPending then .apply else .plan

/-- Claims a task for an agent and sends it. -/
def handOverBy (t : Task) (target : Target) : Program World DispatchOutcome := do
  match ← claim cfg t (some target.agent) with
  | .error _ =>
    release target.place
    retryWithBackoff cfg t .persistFailed
  | .ok none =>
    release target.place
    return .skipped t.id
  | .ok (some _) =>
    match ← (send target.agent ⟨t.id, t.workspace, actionFor t⟩).run with
    | .ok () =>
      if let some p := target.place then
        let _ ← Program.editCapacity (·.markRunning p.pod p.slot ·)
      settle cfg t.id
      return .started t.id (some target.agent)
    | .error _ =>
      release target.place
      rollBack t
      retryWithBackoff cfg t .sendFailed

/-- Sends a task to an agent of a pool, with a slot reserved if the pool runs on pods. -/
def pushToPoolBy (t : Task) (pool : String) (onPods : Bool) (place : Option Placement) :
    Program World DispatchOutcome := do
  let connected ← Agent.connected
  if connected.isEmpty then
    release place
    if onPods && cfg.requestsPods then
      Program.modify (·.spawn (.ensurePods pool))
    retryAfter t cfg.dispatch.noAgentsDelay .noConnectedAgents
  else
    match ← findTarget t pool onPods place connected with
    | none => retryWithBackoff cfg t .noEligibleAgent
    | some target => handOverBy send cfg t target

/-- Sends a task of a workspace to an agent. -/
def pushToAgentBy (t : Task) (w : Workspace) : Program World DispatchOutcome := do
  match w.pool with
  | none => retryAfter t cfg.dispatch.noPoolDelay .noPool
  | some pool =>
    if w.mode = .kubernetes then
      match ← findSlot cfg t pool with
      | none => retryWithBackoff cfg t .noFreeSlot
      | some place => pushToPoolBy send cfg t pool true (some place)
    else pushToPoolBy send cfg t pool false none

/-! ## Starting a task -/

/-- Reads the store on the way of an attempt. -/
def look {α : Type} (f : Store → Except StoreError α) : Fallible DispatchError α :=
  ofResult <| (Except.mapError .store) <$> Program.readStore f

/-- Starts a task where its workspace runs. An apply that nobody confirmed is refused. -/
def dispatchTaskBy (t : Task) : Fallible DispatchError DispatchOutcome := do
  if t.status = .applyPending ∧ !t.isApplyConfirmed then throw (.unconfirmedApply t.id)
  let some w ← look (·.workspace? t.workspace) | throw (.workspaceNotFound t.workspace)
  if w.mode = .onHost then always (startLocal cfg t) else always (pushToAgentBy send cfg t w)

/-! ## On the dispatcher's channel -/

def handOver : Task → Target → Program World DispatchOutcome := handOverBy (Agent.sendTask process) cfg

def pushToPool : Task → String → Bool → Option Placement → Program World DispatchOutcome :=
  pushToPoolBy (Agent.sendTask process) cfg

def pushToAgent : Task → Workspace → Program World DispatchOutcome := pushToAgentBy (Agent.sendTask process) cfg

def dispatchTask : Task → Fallible DispatchError DispatchOutcome := dispatchTaskBy (Agent.sendTask process) cfg

end

/-! ## Choosing a task -/

section

variable (start : Task → Fallible DispatchError DispatchOutcome) (cfg : Settings) (process : Nat)

/-- Whether a workspace is on hold. -/
def isOnHold (workspace : String) : Fallible DispatchError Bool :=
  look fun s => (s.workspace? workspace).map fun w => w.any (·.isLocked)

/-- The first task of a workspace whose apply is confirmed and has not started. -/
def resumableApply (workspace : String) : Fallible DispatchError (Option Task) :=
  look fun s => (s.tasksWhere (·.workspace == workspace)).map fun ts =>
    ts.find? fun t => t.status == .applyPending && t.isApplyConfirmed

/-- Starts an apply that was seen to be due, if it still is. -/
def resumeApplyBy (seen : Task) : Fallible DispatchError DispatchOutcome := do
  match ← look (·.task? seen.id) with
  | some current => if current.status = .applyPending then start current else return .skipped seen.id
  | none => return .skipped seen.id

/-- Starts the task that is next once the workspace is locked. -/
def dispatchExclusiveBy (workspace : String) : Fallible DispatchError DispatchOutcome := do
  match ← look (·.nextTask workspace) with
  | some t => start t
  | none => return .idle

/-- Starts a workspace's next task: a confirmed apply first, then whatever is pending. -/
def dispatchNextBy (workspace : String) : Fallible DispatchError DispatchOutcome := do
  if ← isOnHold workspace then return .idle
  match ← resumableApply workspace with
  | some seen => ofResult <| Program.withLock process workspace (resumeApplyBy start seen).run
  | none =>
    match ← look (·.nextTask workspace) with
    | none => return .idle
    | some t =>
      if t.kind.isExclusive then
        ofResult <| Program.withLock process workspace (dispatchExclusiveBy start workspace).run
      else start t

/-! ## Attempts -/

/-- An attempt that turns a crash into an error and queues the workspace again. -/
def guarded (workspace : String) (p : Fallible DispatchError DispatchOutcome) :
    Fallible DispatchError DispatchOutcome :=
  ofResult do
    match ← p.run.attempt with
    | .ok result => return result
    | .error message =>
      Program.schedule workspace (cfg.dispatch.backoff.delay 0)
      return .error (.crashed workspace message)

/-- Tries to start a workspace's next task. -/
def tryDispatchBy (workspace : String) : Fallible DispatchError DispatchOutcome :=
  guarded cfg workspace (dispatchNextBy start process workspace)

/-- The task whose apply is asked for, if it may start. -/
def confirmedTask (workspace : String) (task : UInt64) : Fallible DispatchError Task := do
  let some t ← look (·.task? task) | throw (.taskNotFound task)
  if t.workspace ≠ workspace then throw (.workspaceMismatch task workspace t.workspace)
  if t.status ≠ .applyPending then throw (.notApplyPending task t.status)
  unless t.isApplyConfirmed do throw (.unconfirmedApply task)
  return t

/-- Starts the apply of a task that an operator confirmed. -/
def executeConfirmedApplyBy (workspace : String) (task : UInt64) : Fallible DispatchError DispatchOutcome := do
  let t ← confirmedTask workspace task
  if ← isOnHold workspace then return .idle
  ofResult <| Program.withLock process workspace (guarded cfg workspace (start t)).run

/-! ## The dispatcher's attempts -/

def resumeApply : Task → Fallible DispatchError DispatchOutcome := resumeApplyBy (dispatchTask cfg process)

def dispatchExclusive : String → Fallible DispatchError DispatchOutcome := dispatchExclusiveBy (dispatchTask cfg process)

def dispatchNext : String → Fallible DispatchError DispatchOutcome := dispatchNextBy (dispatchTask cfg process) process

def tryDispatch : String → Fallible DispatchError DispatchOutcome := tryDispatchBy (dispatchTask cfg process) cfg process

def executeConfirmedApply : String → UInt64 → Fallible DispatchError DispatchOutcome :=
  executeConfirmedApplyBy (dispatchTask cfg process) cfg process

end

end Dispatch

end TaskFleet
