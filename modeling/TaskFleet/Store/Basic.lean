/-
  TaskFleet.Store.Basic — the stored records and the transactions that touch one of them.

  The store holds tasks, workspaces and pools in three tables and counts the IDs it gave
  out. A row may be text that no record reads; whoever needs that row gets `unreadable`.
  A transaction either succeeds with the new store or fails with the store as it was.
-/

import TaskFleet.Table
import TaskFleet.Task.Basic
import TaskFleet.Word
import TaskFleet.Workspace

namespace TaskFleet

/-- What was asked for and is not there. -/
inductive Missing where
  | task (id : UInt64)
  | workspace (id : String)
  deriving DecidableEq, Repr

def Missing.describe : Missing → String
  | task id => s!"task {id}"
  | workspace id => s!"workspace {id}"

/-- Why the store refused. -/
inductive StoreError where
  | notFound (what : Missing)
  | badMove (move : BadMove)
  /-- A row that had to be read is not a record. -/
  | unreadable
  /-- The file is not a store, or is in use. -/
  | cannotOpen
  deriving DecidableEq, Repr

def StoreError.message : StoreError → String
  | notFound what => s!"not found: {what.describe}"
  | badMove move => move.message
  | unreadable => "a stored row is not a record"
  | cannotOpen => "the store cannot be opened"

/-- A stored row. -/
inductive Row (α : Type) where
  | record (value : α)
  | unreadable (text : String)
  deriving DecidableEq, Repr

namespace Row

def read {α : Type} : Row α → Except StoreError α
  | record a => .ok a
  | unreadable _ => .error .unreadable

end Row

/-- All that is kept between two runs of the program. -/
structure Store where
  tasks : Table (Row Task) := .empty
  workspaces : Table (Row Workspace) := .empty
  pools : Table (Row AgentPool) := .empty
  /-- The last ID given to a task. -/
  lastTaskId : UInt64 := 0
  deriving DecidableEq, Inhabited

namespace Table

variable {α : Type}

/-- The record under a key. -/
def record? (t : Table (Row α)) (key : String) : Except StoreError (Option α) :=
  match t.get? key with
  | none => .ok none
  | some row => row.read.map some

/-- Every record in key order; fails if one row is unreadable. -/
def records (t : Table (Row α)) : Except StoreError (List α) := t.rows.mapM fun p => p.2.read

end Table

namespace Store

variable (s : Store)

/-! ## Reads -/

def task? (id : UInt64) : Except StoreError (Option Task) := s.tasks.record? (taskKey id)

def workspace? (id : String) : Except StoreError (Option Workspace) := s.workspaces.record? id

def pool? (id : String) : Except StoreError (Option AgentPool) := s.pools.record? id

def listTasks : Except StoreError (List Task) := s.tasks.records

def listWorkspaces : Except StoreError (List Workspace) := s.workspaces.records

def listPools : Except StoreError (List AgentPool) := s.pools.records

/-- The tasks that a test keeps, in key order. -/
def tasksWhere (keep : Task → Bool) : Except StoreError (List Task) := s.listTasks.map (·.filter keep)

/-! ## Writes -/

/-- Stores a task under its own ID. -/
def putTask (t : Task) : Store := { s with tasks := s.tasks.insert t.key (.record t) }

def putWorkspace (w : Workspace) : Store := { s with workspaces := s.workspaces.insert w.id (.record w) }

def putPool (p : AgentPool) : Store := { s with pools := s.pools.insert p.id (.record p) }

/-- Removes a workspace and says whether there was one. -/
def deleteWorkspace (id : String) : Bool × Store :=
  (s.workspaces.contains id, { s with workspaces := s.workspaces.erase id })

/-- Removes a pool and says whether there was one. -/
def deletePool (id : String) : Bool × Store :=
  (s.pools.contains id, { s with pools := s.pools.erase id })

/-- Gives a task an ID, the last one from now on, and stores it. -/
def addTask (t : Task) (id : UInt64) : Task × Store :=
  let t := { t with id }
  (t, { s with lastTaskId := id }.putTask t)

/-- Gives a task the next ID and stores it, if there is a next ID. -/
def createTask (t : Task) : Option (Task × Store) := (sum? s.lastTaskId 1).map (s.addTask t)

/-- Changes the task stored under an ID; if the change fails, nothing is written. -/
def updateTask (id : UInt64) (change : Task → Except StoreError Task) : Except StoreError (Task × Store) := do
  let some t ← s.task? id | throw (.notFound (.task id))
  let t ← change t
  return (t, { s with tasks := s.tasks.insert (taskKey id) (.record t) })

/-- Records that an operator confirmed the apply of a task that waits for it. -/
def confirmApply (id : UInt64) (user : String) (now : UInt64) : Except StoreError (Task × Store) :=
  s.updateTask id fun t =>
    if t.status = .applyPending then .ok { t with confirmedBy := some user, confirmedAt := some now }
    else .error (.badMove ⟨t.id, t.status, .running⟩)

end Store

/-- A move of a task inside a transaction. -/
def Task.move (t : Task) (next : TaskStatus) : Except StoreError Task := (t.moveTo next).mapError .badMove

/-- A task's end inside a transaction. -/
def Task.conclude (t : Task) (status : TaskStatus) (now : UInt64) : Except StoreError Task :=
  (t.finish status now).mapError .badMove

end TaskFleet
