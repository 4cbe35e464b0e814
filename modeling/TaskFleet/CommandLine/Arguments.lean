/-
  TaskFleet.CommandLine.Arguments — what the arguments of the program ask for.

  An option is written `--name value` or `--name=value`, at most once on each side of the
  command; a value on its own may not look like an option. `--config` and `--store` may
  stand on either side, and the one behind the command wins. Options are judged from left to
  right, so a request for help counts only if everything before it is in order.
-/

import TaskFleet.Task.Status
import TaskFleet.Text.Digits

namespace TaskFleet.CommandLine

/-- What the program is to do. -/
inductive Command where
  /-- Run the orchestrator until it is interrupted. -/
  | serve (workers : Option UInt64)
  /-- Deal with the tasks that an earlier run left behind. -/
  | recover
  | next (workspace : String)
  | pool (pool : String)
  | submit (workspace : String) (kind : TaskKind)
  | confirmApply (task : UInt64) (user : String)
  deriving DecidableEq, Repr

/-- The name of a command. -/
inductive CommandName where
  | serve
  | recover
  | next
  | pool
  | submit
  | confirmApply
  deriving DecidableEq, Repr

namespace CommandName

def name : CommandName → String
  | serve => "serve"
  | recover => "recover"
  | next => "next"
  | pool => "pool"
  | submit => "submit"
  | confirmApply => "confirm-apply"

instance : Named CommandName := ⟨[serve, recover, next, pool, submit, confirmApply], name⟩

end CommandName

/-- The options of the program and its commands. -/
inductive OptionName where
  | config
  | store
  | workers
  | workspace
  | pool
  | kind
  | task
  | user
  deriving DecidableEq, Repr

namespace OptionName

def name : OptionName → String
  | config => "config"
  | store => "store"
  | workers => "workers"
  | workspace => "workspace"
  | pool => "pool"
  | kind => "kind"
  | task => "task"
  | user => "user"

instance : Named OptionName := ⟨[config, store, workers, workspace, pool, kind, task, user], name⟩

end OptionName

/-- The options that a command has of its own. -/
def CommandName.options : CommandName → List OptionName
  | serve => [.workers]
  | recover => []
  | next => [.workspace]
  | pool => [.pool]
  | submit => [.workspace, .kind]
  | confirmApply => [.task, .user]

/-- The options that a command cannot do without. -/
def CommandName.required : CommandName → List OptionName
  | serve | recover => []
  | next | submit => [.workspace]
  | pool => [.pool]
  | confirmApply => [.task, .user]

/-! ## Values -/

/-- A number of 64 bits in decimal digits, after a plus sign or nothing. -/
def word? (s : String) : Option UInt64 :=
  let digits := match s.toList with
    | '+' :: r => r
    | cs => cs
  ((Text.natOf? digits).filter (· < UInt64.size)).map UInt64.ofNat

/-- A kind of task as the command line writes it, with dashes. -/
def kind? : String → Option TaskKind
  | "plan" => some .plan
  | "plan-and-apply" => some .planAndApply
  | "drift-check" => some .driftCheck
  | _ => none

/-- Whether an option takes a value. -/
def OptionName.accepts (o : OptionName) (value : String) : Bool :=
  match o with
  | config | store => value != ""
  | workers | task => (word? value).isSome
  | kind => (kind? value).isSome
  | workspace | pool | user => true

/-! ## Reading -/

/-- The options that were given, with their values. -/
abbrev Given := List (OptionName × String)

/-- How the reading of arguments ends if they are in order. -/
inductive Request where
  /-- The text that explains the program, or one of its commands. -/
  | help (command : Option CommandName)
  | run (config store : Option String) (command : Command)
  deriving DecidableEq, Repr

/-- What one side of the command comes to. -/
inductive Side where
  | help
  /-- The options given, and the arguments from the first one that is no option. -/
  | options (given : Given) (rest : List String)

/-- Whether an argument cannot be a value on its own. -/
def looksLikeOption (s : String) : Bool :=
  match s.toList with
  | '-' :: _ :: _ => true
  | _ => false

/-- Takes an option with its value, if it may be given and takes that value. -/
def Given.add? (given : Given) (allowed : List OptionName) (name value : String) : Option Given := do
  let o : OptionName ← Named.ofName? name
  if allowed.contains o ∧ (given.lookup o).isNone ∧ o.accepts value then some (given ++ [(o, value)]) else none

/-- An option as it is written: its name, and its value behind an equals sign. -/
def optionParts? (arg : String) : Option (String × Option String) :=
  match arg.toList with
  | '-' :: '-' :: r =>
    let name := String.ofList (r.takeWhile (· != '='))
    match r.dropWhile (· != '=') with
    | _ :: value => some (name, some (String.ofList value))
    | [] => some (name, none)
  | _ => none

/-- Reads the options on one side of the command; none if they are not in order. -/
def readSide? (allowed : List OptionName) : Given → List String → Option Side
  | given, [] => some (.options given [])
  | given, arg :: rest =>
    match optionParts? arg with
    | none =>
      if arg.toList.take 2 = ['-', 'h'] then some .help
      else if looksLikeOption arg then none
      else some (.options given (arg :: rest))
    | some ("", none) => if rest.isEmpty then some (.options given []) else none
    | some ("help", none) => some .help
    | some (name, some value) => do readSide? allowed (← given.add? allowed name value) rest
    | some (name, none) =>
      match rest with
      | [] => none
      | value :: rest => do
        if looksLikeOption value then none
        readSide? allowed (← given.add? allowed name value) rest

/-- The command that a name and its options make. -/
def command? (name : CommandName) (given : Given) : Option Command := do
  let value (o : OptionName) : Option String := given.lookup o
  match name with
  | .serve => return .serve ((value .workers).bind word?)
  | .recover => return .recover
  | .next => return .next (← value .workspace)
  | .pool => return .pool (← value .pool)
  | .submit => return .submit (← value .workspace) (← kind? ((value .kind).getD "plan"))
  | .confirmApply => return .confirmApply (← (value .task).bind word?) (← value .user)

/-- The options that may stand on either side of the command. -/
def globalOptions : List OptionName := [.config, .store]

/-- A command behind the options before it. -/
def readCommand? (before : Given) (name : CommandName) (args : List String) : Option Request := do
  match ← readSide? (name.options ++ globalOptions) [] args with
  | .help => return .help (some name)
  | .options given rest =>
    unless rest.isEmpty do none
    let command ← command? name given
    return .run (given.lookup .config <|> before.lookup .config) (given.lookup .store <|> before.lookup .store) command

/-- What the arguments ask for; none if they are not in order. -/
def request? (args : List String) : Option Request := do
  match ← readSide? globalOptions [] args with
  | .help => return .help none
  | .options before rest =>
    match rest with
    | [] => none
    | ["help"] => return .help none
    | ["help", name] => return .help (some (← Named.ofName? name))
    | name :: args => readCommand? before (← Named.ofName? name) args

end TaskFleet.CommandLine
