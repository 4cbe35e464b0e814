/-
  TaskFleet.Agent.Registry — the connected agents and the mailboxes their tasks go to.

  Each connection has a mailbox of its own with room for sixteen messages. A connection
  that replaces another leaves the old mailbox closed. Senders that find a mailbox full
  wait in line; a sender's turn has come when the messages and the senders before it leave
  room (`hasTurn`).
-/

import TaskFleet.Table
import TaskFleet.Task.Status

namespace TaskFleet

/-- What an agent is told to do with a task. -/
inductive AgentAction where
  | plan
  | apply
  deriving DecidableEq, Repr, Inhabited

def AgentAction.name : AgentAction → String
  | plan => "plan"
  | apply => "apply"

instance : Named AgentAction := ⟨[.plan, .apply], AgentAction.name⟩

/-- A task handed to an agent. -/
structure AgentMessage where
  task : UInt64
  workspace : String
  action : AgentAction
  deriving DecidableEq, Repr, Inhabited

/-- What an agent last said about its load. -/
structure AgentStatus where
  planRunning : UInt32 := 0
  planLimit : UInt32 := 3
  applyRunning : Bool := false
  deriving DecidableEq, Repr, Inhabited

/-- Whether an agent with this load takes a task of this kind. -/
def AgentStatus.accepts (s : AgentStatus) : TaskKind → Bool
  | .plan | .driftCheck => s.planRunning < s.planLimit
  | .planAndApply => !s.applyRunning

/-- The messages under way to one connection. -/
structure Mailbox where
  messages : List AgentMessage := []
  /-- The processes that wait for room, in the order in which they came. -/
  senders : List Nat := []
  /-- Whether nobody reads it any more. -/
  closed : Bool := false
  deriving DecidableEq, Inhabited

namespace Mailbox

def capacity : Nat := 16

/-- Whether a waiting sender may deliver now. -/
def hasTurn (b : Mailbox) (sender : Nat) : Bool :=
  b.closed || b.messages.length + b.senders.idxOf sender < capacity

/-- A sender's turn: the message is delivered unless the mailbox is closed. -/
def deliver (b : Mailbox) (sender : Nat) (m : AgentMessage) : Bool × Mailbox :=
  let b := { b with senders := b.senders.erase sender }
  if b.closed then (false, b) else (true, { b with messages := b.messages ++ [m] })

end Mailbox

/-- A connected agent. -/
structure Connection where
  pool : Option String
  pod : Option String
  status : AgentStatus := {}
  mailbox : Nat
  deriving DecidableEq, Inhabited

/-- Why a message did not reach an agent. -/
inductive SendError where
  | notConnected (agent : String)
  | connectionClosed (agent : String)
  /-- The way to the agents is disturbed. -/
  | disturbed (reason : String)
  deriving DecidableEq, Repr

def SendError.message : SendError → String
  | notConnected agent => s!"agent {agent} is not connected"
  | connectionClosed agent => s!"agent {agent} connection closed"
  | disturbed reason => reason

structure Registry where
  connections : Table Connection := .empty
  /-- Every mailbox there ever was; a mailbox is known by its place. -/
  mailboxes : List Mailbox := []
  /-- The mailbox that each agent reads. -/
  inboxes : Table Nat := .empty
  deriving DecidableEq, Inhabited

namespace Registry

variable (r : Registry)

def mailbox (i : Nat) : Mailbox := r.mailboxes[i]?.getD { closed := true }

def modifyMailbox (i : Nat) (f : Mailbox → Mailbox) : Registry :=
  { r with mailboxes := r.mailboxes.modify i f }

/-- Nobody reads the agent's mailbox any more. -/
def hangUp (agent : String) : Bool × Registry :=
  match r.inboxes.get? agent with
  | none => (false, r)
  | some i =>
    (true, { r.modifyMailbox i (fun b => { b with messages := [], closed := true }) with
      inboxes := r.inboxes.erase agent })

/-- Opens a new mailbox for an agent, in the place of an earlier connection. -/
def connect (agent : String) (pool pod : Option String) : Registry :=
  let r := (r.hangUp agent).2
  let i := r.mailboxes.length
  { connections := r.connections.insert agent { pool, pod, mailbox := i }
    mailboxes := r.mailboxes ++ [{}]
    inboxes := r.inboxes.insert agent i }

/-- Forgets an agent and says whether it was connected. -/
def disconnect (agent : String) : Bool × Registry :=
  (r.connections.contains agent, { r with connections := r.connections.erase agent })

/-- The messages an agent has not read yet, taken out. -/
def drain (agent : String) : List AgentMessage × Registry :=
  match r.inboxes.get? agent with
  | none => ([], r)
  | some i => ((r.mailbox i).messages, r.modifyMailbox i fun b => { b with messages := [] })

def status? (agent : String) : Option AgentStatus := (r.connections.get? agent).map (·.status)

/-- Whether a connected agent takes a task of this kind. -/
def isAvailable (agent : String) (kind : TaskKind) : Bool := (r.status? agent).any (·.accepts kind)

/-- The connected agents, by name. -/
def agents : List String := r.connections.keys

/-- The agents of a pool that take a task of this kind, by name. -/
def candidates (pool : String) (kind : TaskKind) : List String :=
  (r.connections.rows.filter fun p => p.2.pool == some pool && p.2.status.accepts kind).map (·.1)

/-- Takes a process out of every line it waits in. -/
def withdraw (process : Nat) : Registry :=
  { r with mailboxes := r.mailboxes.map fun b => { b with senders := b.senders.erase process } }

end Registry

end TaskFleet
