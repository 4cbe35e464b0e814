/-
  TaskFleet.LocalCommand.Executor — whoever carries out tasks on this machine.

  An executor either runs the configured commands or follows a script, which may also leave
  a task running, break down half-way or never return.
-/

import TaskFleet.LocalCommand.Basic

namespace TaskFleet

/-- What a scripted executor does with a task. -/
inductive ExecutorScript where
  /-- Ends the task as a command that succeeds would. -/
  | finish
  | leaveRunning
  | breakDown
  /-- Leaves a message on the task, then breaks down. -/
  | breakDownWithMessage
  | failTask
  | findNoChanges
  | neverReturn
  deriving DecidableEq, Repr, Inhabited

namespace ExecutorScript

def name : ExecutorScript → String
  | finish => "finish"
  | leaveRunning => "leave_running"
  | breakDown => "error"
  | breakDownWithMessage => "message"
  | failTask => "fail_task"
  | findNoChanges => "no_changes"
  | neverReturn => "hang"

instance : Named ExecutorScript :=
  ⟨[finish, leaveRunning, breakDown, breakDownWithMessage, failTask, findNoChanges, neverReturn], name⟩

end ExecutorScript

inductive Executor where
  | scripted (script : ExecutorScript)
  | commands (commands : LocalCommands)
  deriving DecidableEq, Repr, Inhabited

namespace Executor

/-- A change of the task's row, and the result it gives. -/
def update (s : Store) (id : UInt64) (change : Task → Except StoreError Task) : Except LocalError Unit × Store :=
  match s.updateTask id change with
  | .ok (_, s') => (.ok (), s')
  | .error e => (.error (.store e), s)

/-- A script's work on a task; none if it never returns. -/
def follow (script : ExecutorScript) (action : AgentAction) (t : Task) (now : UInt64) (s : Store) :
    Option (Except LocalError Unit × Store) :=
  let broken : Except LocalError Unit := .error (.broken "engine exploded")
  match script with
  | .finish => some (update s t.id (LocalCommand.concludeSuccess action now))
  | .leaveRunning => some (.ok (), s)
  | .breakDown => some (broken, s)
  | .breakDownWithMessage =>
    match update s t.id fun t => .ok { t with errorMessage := some "partial output" } with
    | (.ok (), s') => some (broken, s')
    | failed => some failed
  | .failTask => some (update s t.id (LocalCommand.concludeFailure "command failed" now))
  | .findNoChanges => some (update s t.id (·.conclude .plannedAndFinished now))
  | .neverReturn => none

/-- An executor's work on a task, with `start` as the operating system; none if it never
    returns. -/
def execute (e : Executor) (start : CommandSpec → Task → AgentAction → ProgramEnd) (action : AgentAction) (t : Task)
    (now : UInt64) (s : Store) : Option (Except LocalError Unit × Store) :=
  match e with
  | scripted script => follow script action t now s
  | commands c =>
    some <| match LocalCommand.execute c start action t now s with
      | .ok s' => (.ok (), s')
      | .error e => (.error e, s)

end Executor

end TaskFleet
