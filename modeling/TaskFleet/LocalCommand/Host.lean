/-
  TaskFleet.LocalCommand.Host — a small machine to run commands on, without the machine.

  It has the usual directories and three programs: a shell, one that succeeds and one that
  fails. A program that is not there, a working directory that is not there and a zero byte
  in anything handed over keep a program from starting.
-/

import TaskFleet.LocalCommand.Shell.Run

namespace TaskFleet.Host

def zeroByte : String := "nul byte found in provided data"

/-- The directory that a task's program is to work in, if one is configured. -/
def workingDirectory (spec : CommandSpec) (t : Task) : Option String :=
  spec.workingDir.map fun dir => if spec.perWorkspaceDir then join dir t.workspace else dir

/-- What a program is told about its task. -/
def environment (t : Task) (action : AgentAction) : List (String × String) :=
  [("RUNPLANE_TASK_ID", toString t.id), ("RUNPLANE_WORKSPACE_ID", t.workspace),
    ("RUNPLANE_TASK_KIND", t.kind.name), ("RUNPLANE_ACTION", action.name)]

/-- Runs a shell with its arguments. -/
def runShell (program : String) (args : List String) (environment : List (String × String)) (directory : String) :
    ProgramEnd :=
  match args with
  | "-c" :: script :: rest =>
    let start : Shell.State :=
      { args := if rest.isEmpty then [program] else rest
        values := environment
        exported := environment.map (·.1)
        directory }
    let (status, stderr) := Shell.run start script
    .ended status stderr
  | _ => .ended (.code 0) []

/-- Runs one of the machine's programs in a directory. -/
def runProgram (spec : CommandSpec) (environment : List (String × String)) (directory : String) : ProgramEnd :=
  let isNamed (name : String) := [name, "/bin/" ++ name, "/usr/bin/" ++ name].contains spec.program
  let path := join directory spec.program
  if isNamed "sh" then runShell spec.program spec.args environment directory
  else if isNamed "true" then .ended (.code 0) []
  else if isNamed "false" then .ended (.code 1) []
  else if spec.program.toList.contains '/' ∧ (isDirectory path ∨ isFile path) then .notStarted notPermitted
  else .notStarted notFound

/-- Starts a command for a task and waits for its end. -/
def start (spec : CommandSpec) (t : Task) (action : AgentAction) : ProgramEnd :=
  let handedOver := spec.program :: t.workspace :: (workingDirectory spec t).toList ++ spec.args
  if handedOver.any fun s => s.toList.contains (Char.ofNat 0) then .notStarted zeroByte
  else
    match (workingDirectory spec t).map directory with
    | some (.error reason) => .notStarted reason
    | some (.ok dir) => runProgram spec (environment t action) dir
    | none => runProgram spec (environment t action) "/"

end TaskFleet.Host
