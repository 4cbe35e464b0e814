/-
  TaskFleet.Store.Rows — stored rows as text.

  A row is kept as JSON. Text that is no record stays in the store and fails whoever needs
  that row.
-/

import TaskFleet.Json.Printer
import TaskFleet.Json.Reader
import TaskFleet.Record
import TaskFleet.Store.Basic

namespace TaskFleet

namespace Row

variable {α : Type}

/-- The row that a text stands for. -/
def ofText (read : Datum.Decoder α) (text : String) : Row α :=
  match Json.decode? read text with
  | some a => .record a
  | none => .unreadable text

/-- The text of a row. -/
def toText (write : α → Datum) : Row α → String
  | record a => Json.compress (write a)
  | unreadable text => text

end Row

namespace Store

variable (s : Store)

def writeTaskText (key text : String) : Store :=
  { s with tasks := s.tasks.insert key (.ofText Task.ofDatum? text) }

def writeWorkspaceText (key text : String) : Store :=
  { s with workspaces := s.workspaces.insert key (.ofText Workspace.ofDatum? text) }

def writePoolText (key text : String) : Store :=
  { s with pools := s.pools.insert key (.ofText AgentPool.ofDatum? text) }

/-! ## The whole store as one text -/

/-- A table as the list of its keys with their texts. -/
def tableDatum {α : Type} (write : α → Datum) (t : Table (Row α)) : Datum :=
  .list (t.rows.map fun (key, row) => .list [.ofText key, .ofText (row.toText write)])

def toDatum : Datum :=
  .ofFields [
    ("last_task_id", .ofWord s.lastTaskId),
    ("tasks", tableDatum Task.toDatum s.tasks),
    ("workspaces", tableDatum Workspace.toDatum s.workspaces),
    ("pools", tableDatum AgentPool.toDatum s.pools)]

/-- A key with its text. -/
def rowText : Datum.Decoder (String × String) := fun style d => do
  match ← Datum.listOf Datum.string style d with
  | [key, text] => some (key, text)
  | _ => none

def fieldNames : List String := ["last_task_id", "tasks", "workspaces", "pools"]

def ofDatum? : Datum.Decoder Store := fun style d => do
  let f ← Datum.fields? fieldNames style d
  let tasks ← Datum.required (Datum.listOf rowText) style f "tasks"
  let workspaces ← Datum.required (Datum.listOf rowText) style f "workspaces"
  let pools ← Datum.required (Datum.listOf rowText) style f "pools"
  let s : Store := { lastTaskId := ← Datum.required Datum.word style f "last_task_id" }
  let s := tasks.foldl (fun s (key, text) => s.writeTaskText key text) s
  let s := workspaces.foldl (fun s (key, text) => s.writeWorkspaceText key text) s
  return pools.foldl (fun s (key, text) => s.writePoolText key text) s

/-- The store that a file holds. -/
def ofText? (text : String) : Except StoreError Store :=
  match Json.decode? ofDatum? text with
  | some s => .ok s
  | none => .error .cannotOpen

def toText : String := Json.compress s.toDatum

end Store

end TaskFleet
