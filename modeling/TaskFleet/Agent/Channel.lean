/-
  TaskFleet.Agent.Channel — connecting agents and sending tasks to them.

  A send takes the agent's present connection, waits until its mailbox has room and
  delivers. If the mailbox turns out to be closed, the agent counts as disconnected.
-/

import TaskFleet.Capacity.Reconcile

namespace TaskFleet

/-- Why an agent's own call failed. -/
inductive AgentError where
  | notConnected (agent : String)
  | capacity (error : CapacityError)
  deriving DecidableEq, Repr

def AgentError.message : AgentError → String
  | notConnected agent => s!"agent {agent} is not connected"
  | capacity error => error.message

namespace Agent

open Fallible

/-- Connects an agent, from a pod if it runs on one. -/
def connect (agent : String) (pool pod : Option String) : Fallible AgentError Unit := do
  if let some pod := pod then
    ofResult <| (Except.mapError .capacity) <$> Program.editCapacity (·.registerAgent pod agent ·)
  always <| Program.modify fun w => { w with registry := w.registry.connect agent pool pod }

/-- An agent's word on its load; its pod counts as heard of. -/
def heartbeat (agent : String) (status : AgentStatus) : Fallible AgentError Unit := do
  let connection ← always <| Program.apply fun w =>
    (w.registry.connections.get? agent,
      { w with registry.connections := w.registry.connections.modify agent fun c => { c with status } })
  match connection with
  | none => throw (.notConnected agent)
  | some c =>
    if let some pod := c.pod then
      ofResult <| (Except.mapError .capacity) <$> Program.editCapacity (·.heartbeat pod ·)

/-- Sends a message to an agent, as a process that waits while the mailbox is full. -/
def send (process : Nat) (agent : String) (message : AgentMessage) : Fallible SendError Unit := do
  let connection ← always <| Program.get (·.registry.connections.get? agent)
  match connection with
  | none => throw (.notConnected agent)
  | some c =>
    always <| Program.modify fun w =>
      { w with registry := w.registry.modifyMailbox c.mailbox fun b => { b with senders := b.senders ++ [process] } }
    always <| Program.waitFor fun w => (w.registry.mailbox c.mailbox).hasTurn process
    let delivered ← always <| Program.apply fun w =>
      let (delivered, b) := (w.registry.mailbox c.mailbox).deliver process message
      (delivered, { w with registry := w.registry.modifyMailbox c.mailbox fun _ => b })
    unless delivered do
      always <| Program.modify fun w => { w with registry := (w.registry.disconnect agent).2 }
      throw (.connectionClosed agent)

/-- A dispatcher's send, which the way to the agents may fail. -/
def sendTask (process : Nat) (agent : String) (message : AgentMessage) : Fallible SendError Unit := do
  match ← always (Program.get (·.sendFault)) with
  | some reason => throw (.disturbed reason)
  | none => send process agent message

/-- The connected agents by name; listing them may crash. -/
def connected : Program World (List String) := do
  match ← Program.get fun w => (w.agentsFault, w.registry.agents) with
  | (some message, _) => .crash message
  | (none, agents) => return agents

/-- The agents of a pool that take a task of this kind, by name. -/
def candidates (pool : String) (kind : TaskKind) : Program World (List String) := do
  let _ ← connected
  Program.get (·.registry.candidates pool kind)

end Agent

end TaskFleet
