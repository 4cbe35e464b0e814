/-
  TaskFleet.CommandLine.Help — the texts that explain the program and its commands.
-/

import TaskFleet.CommandLine.Arguments
import TaskFleet.Sorting

namespace TaskFleet.CommandLine

/-- The name under which the program is started. -/
def programName : String := "runplaned"

def CommandName.purpose : CommandName → String
  | serve => "Run the orchestrator until Ctrl-C"
  | recover => "Resolve Running tasks left behind by a previous process"
  | next => "Show the task the selector would run next for a workspace"
  | pool => "Show the live work routed to a pool"
  | submit => "Queue a new task. It is dispatched by the next \x60serve\x60"
  | confirmApply => "Confirm the apply phase of an ApplyPending task"

def OptionName.purpose : OptionName → String
  | config => "Path to runplane.toml. Built-in defaults are used when omitted"
  | store => "State store path, overriding the config file"
  | workers => "Dispatch worker count, overriding the config file"
  | kind => "[default: plan] [possible values: plan, plan-and-apply, drift-check]"
  | workspace | pool | task | user => ""

/-- A text filled up with blanks. -/
def padded (width : Nat) (s : String) : String := s ++ String.ofList (List.replicate (width - s.length) ' ')

/-- Two columns, the second one lined up. -/
def columns (rows : List (String × String)) : String :=
  let width := rows.foldl (fun w row => max w row.1.length) 0
  String.join (rows.map fun (left, right) => "  " ++ padded width left ++ "  " ++ right ++ "\n")

/-- An option with its value's name. -/
def OptionName.form (o : OptionName) : String := "--" ++ o.name ++ " <" ++ o.name.toUpper ++ ">"

/-- The rows that explain options. -/
def optionRows (options : List OptionName) : List (String × String) :=
  options.map (fun o => ("    " ++ o.form, o.purpose)) ++ [("-h, --help", "Print help")]

/-- The options of a command in the order in which they are explained: those that are first
    of their own kind come first, then the second ones, each time by name. -/
def CommandName.shownOptions (c : CommandName) : List OptionName :=
  let ranked := c.options.zipIdx ++ globalOptions.zipIdx
  (sortBy (fun a b => a.2 < b.2 || (a.2 == b.2 && decide (a.1.name ≤ b.1.name))) ranked).map (·.1)

/-- The text for one command. -/
def CommandName.help (c : CommandName) : String :=
  let required := String.join (c.required.map fun o => " " ++ o.form)
  c.purpose ++ "\n\nUsage: " ++ programName ++ " " ++ c.name ++ " [OPTIONS]" ++ required ++ "\n\nOptions:\n"
    ++ columns (optionRows c.shownOptions)

/-- The text for the whole program. -/
def overview : String :=
  let commands := (Named.cases (α := CommandName)).map fun c => (c.name, c.purpose)
  "Runplane run orchestrator\n\nUsage: " ++ programName ++ " [OPTIONS] <COMMAND>\n\nCommands:\n"
    ++ columns (commands ++ [("help", "Print this message or the help of the given subcommand(s)")])
    ++ "\nOptions:\n" ++ columns (optionRows globalOptions)

def help : Option CommandName → String
  | none => overview
  | some c => c.help

end TaskFleet.CommandLine
