/-
  TaskFleet.LocalCommand.Basic — the commands that carry out tasks on this machine, and what
  the end of a command means for its task.

  A plan that succeeds ends the task, but for an exclusive task it leaves it waiting for its
  apply; an apply that succeeds ends the task as applied. A command that fails ends the task
  as failed, with the last line it wrote to standard error, cut to 500 bytes.
-/

import TaskFleet.Agent.Registry
import TaskFleet.Store.Basic
import TaskFleet.Text.Blank
import TaskFleet.Text.Utf8

namespace TaskFleet

/-- A program to run. -/
structure CommandSpec where
  program : String
  args : List String := []
  workingDir : Option String := none
  /-- Whether the working directory holds one directory per workspace. -/
  perWorkspaceDir : Bool := false
  deriving DecidableEq, Repr, Inhabited

/-- What to run for plans and for applies. -/
structure LocalCommands where
  plan : Option CommandSpec := none
  apply : Option CommandSpec := none
  deriving DecidableEq, Repr, Inhabited

/-- How a program ended. -/
inductive ExitStatus where
  | code (n : Nat)
  | signal (n : Nat) (coreDumped : Bool)
  deriving DecidableEq, Repr

namespace ExitStatus

/-- The names of the signals, from number 1 on. -/
def signalNames : List String :=
  ["SIGHUP", "SIGINT", "SIGQUIT", "SIGILL", "SIGTRAP", "SIGABRT", "SIGBUS", "SIGFPE", "SIGKILL", "SIGUSR1",
    "SIGSEGV", "SIGUSR2", "SIGPIPE", "SIGALRM", "SIGTERM", "SIGSTKFLT", "SIGCHLD", "SIGCONT", "SIGSTOP",
    "SIGTSTP", "SIGTTIN", "SIGTTOU", "SIGURG", "SIGXCPU", "SIGXFSZ", "SIGVTALRM", "SIGPROF", "SIGWINCH",
    "SIGIO", "SIGPWR", "SIGSYS"]

def describe : ExitStatus → String
  | code n => s!"exit status: {n}"
  | signal n coreDumped =>
    let dump := if coreDumped then " (core dumped)" else ""
    match n, signalNames[n - 1]? with
    | 0, _ | _, none => s!"signal: {n}{dump}"
    | _, some name => s!"signal: {n} ({name}){dump}"

end ExitStatus

/-- What became of a program: it could not be started, or it ended. -/
inductive ProgramEnd where
  | notStarted (reason : String)
  | ended (status : ExitStatus) (stderr : List UInt8)
  deriving DecidableEq, Repr

/-- Why a task was not carried out. -/
inductive LocalError where
  | notConfigured (action : AgentAction)
  /-- The operating system did not start the program. -/
  | notStarted (reason : String)
  | store (error : StoreError)
  /-- The executor broke down by itself. -/
  | broken (reason : String)
  deriving DecidableEq, Repr

def LocalError.message : LocalError → String
  | notConfigured action => s!"no local {action.name} command configured"
  | notStarted reason => reason
  | store error => error.message
  | broken reason => reason

namespace LocalCommand

/-- The most bytes of a failure message. -/
def messageLimit : Nat := 500

/-- What a failed program has to say: the last line of its standard error that is not blank,
    or else how it ended. -/
def complaint (program : String) (status : ExitStatus) (stderr : List UInt8) : List Char :=
  match (Text.lines (Text.decodeLossy stderr)).reverse.find? fun l => !(Text.trim l).isEmpty with
  | some line => Text.trim line
  | none => s!"{program} exited with {status.describe}".toList

/-- The failure message of a program. -/
def failureMessage (program : String) (status : ExitStatus) (stderr : List UInt8) : String :=
  String.ofList (Text.clip messageLimit (complaint program status stderr))

/-- The end of a plan that succeeded. -/
def concludePlan (now : UInt64) (t : Task) : Except StoreError Task :=
  if t.kind = .planAndApply then { t with stage := some .applyPending }.move .applyPending
  else t.conclude .success now

/-- The end of an apply that succeeded. -/
def concludeApply (now : UInt64) (t : Task) : Except StoreError Task := t.conclude .applied now

/-- The end of a command that failed. -/
def concludeFailure (message : String) (now : UInt64) (t : Task) : Except StoreError Task :=
  { t with errorMessage := some message }.conclude .failed now

/-- What an action's success does to its task. -/
def concludeSuccess : AgentAction → UInt64 → Task → Except StoreError Task
  | .plan => concludePlan
  | .apply => concludeApply

/-- What the end of a program does to its task's row. -/
def conclude (s : Store) (id : UInt64) (action : AgentAction) (spec : CommandSpec) (result : ProgramEnd)
    (now : UInt64) : Except LocalError Store :=
  match result with
  | .notStarted reason => .error (.notStarted reason)
  | .ended status stderr =>
    let change :=
      if status = .code 0 then concludeSuccess action now
      else concludeFailure (failureMessage spec.program status stderr) now
    ((s.updateTask id change).map (·.2)).mapError .store

/-- The command for an action. -/
def specFor (commands : LocalCommands) : AgentAction → Option CommandSpec
  | .plan => commands.plan
  | .apply => commands.apply

/-- Carries out an action on a task, with `start` as the operating system. -/
def execute (commands : LocalCommands) (start : CommandSpec → Task → AgentAction → ProgramEnd) (action : AgentAction)
    (t : Task) (now : UInt64) (s : Store) : Except LocalError Store :=
  match specFor commands action with
  | none => .error (.notConfigured action)
  | some spec => conclude s t.id action spec (start spec t action) now

end LocalCommand

end TaskFleet
