/-
  TaskFleet.Dispatch.Outcome — how an attempt to start a task ends.
-/

import TaskFleet.Store.Basic
import TaskFleet.Time.Duration

namespace TaskFleet

/-- Why an attempt is to be made again later. -/
inductive RetryReason where
  | noPool
  | noFreeSlot
  | noConnectedAgents
  | noEligibleAgent
  | persistFailed
  | sendFailed
  deriving DecidableEq, Repr

def RetryReason.name : RetryReason → String
  | noPool => "no_pool"
  | noFreeSlot => "no_free_slot"
  | noConnectedAgents => "no_connected_agents"
  | noEligibleAgent => "no_eligible_agent"
  | persistFailed => "persist_failed"
  | sendFailed => "send_failed"

inductive DispatchOutcome where
  /-- There was nothing to start. -/
  | idle
  /-- Somebody else has the task. -/
  | skipped (task : UInt64)
  | started (task : UInt64) (agent : Option String)
  | retry (task : UInt64) (delay : Duration) (reason : RetryReason)
  deriving DecidableEq

/-- Why an attempt was refused or failed. -/
inductive DispatchError where
  /-- An apply that no operator confirmed. -/
  | unconfirmedApply (task : UInt64)
  | notApplyPending (task : UInt64) (status : TaskStatus)
  | taskNotFound (task : UInt64)
  | workspaceNotFound (workspace : String)
  | workspaceMismatch (task : UInt64) (requested actual : String)
  /-- The attempt crashed. -/
  | crashed (workspace message : String)
  | store (error : StoreError)
  deriving DecidableEq, Repr

def DispatchError.message : DispatchError → String
  | unconfirmedApply task => s!"task {task}: apply requires explicit confirmation"
  | notApplyPending task status => s!"task {task} is not awaiting apply (current: {status.name})"
  | taskNotFound task => s!"task {task} not found"
  | workspaceNotFound workspace => s!"workspace {workspace} not found"
  | workspaceMismatch task requested actual =>
    s!"task {task} belongs to workspace {actual}, not {requested}"
  | crashed workspace message => s!"dispatch for workspace {workspace} panicked: {message}"
  | store error => error.message

end TaskFleet
