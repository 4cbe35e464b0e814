/-
  TaskFleet.CommandLine.Run — what a command prints and what it changes.

  The configuration is read first; then the store is opened, which makes it if it is not
  there; then the command works on the store. Each step fails before the next one begins.
-/

import TaskFleet.CommandLine.Help
import TaskFleet.Config.Toml
import TaskFleet.Json.Printer
import TaskFleet.Record
import TaskFleet.Recovery
import TaskFleet.Text.Quoted

namespace TaskFleet.CommandLine

/-- Why a command failed. -/
inductive CommandError where
  /-- The configuration file is not there. -/
  | noConfigFile
  | config (error : ConfigError)
  | store (error : StoreError)
  | unknownWorkspace (workspace : String)
  /-- The orchestrator needs a cluster and a clock of its own to run. -/
  | cannotServe
  | crashed (message : String)
  deriving DecidableEq, Repr

def CommandError.message : CommandError → String
  | noConfigFile => "No such file or directory (os error 2)"
  | config error => error.message
  | store error => error.message
  | unknownWorkspace workspace => s!"workspace {workspace} not found"
  | cannotServe => "there is no cluster to serve"
  | crashed message => message

/-! ## Commands on a store -/

/-- A task over several lines, or that there is none. -/
def showNext (workspace : String) : Option Task → String
  | some t => Json.pretty t.toDatum ++ "\n"
  | none => s!"no executable task for workspace {workspace}\n"

/-- What a pool has to do. -/
def showPool (pool : String) (w : PoolWorkload) : String :=
  s!"pool:                    {pool}\n"
    ++ s!"running:                 {w.running}\n"
    ++ s!"apply_pending:           {w.applyPending}\n"
    ++ s!"pending:                 {w.pending}\n"
    ++ s!"unblocked_pending:       {w.unblockedPending}\n"
    ++ s!"unblocked_pending_apply: {w.unblockedPendingApply}\n"
    ++ s!"awaiting confirmation:   {Text.bracketed (w.applyPendingTasks.map toString)}\n"
    ++ s!"workspaces with pending: {Text.quotedList w.pendingWorkspaces}\n"

/-- The tasks that were dealt with. -/
def showOrphans (restored failed : List UInt64) : String :=
  s!"restored to apply_pending: {Text.bracketed (restored.map toString)}\n"
    ++ s!"failed: {Text.bracketed (failed.map toString)}\n"

/-- Deals with orphaned tasks. -/
def recover (s : Store) (now : UInt64) : Except CommandError String × Store :=
  match (StoreProgram.cleanOrphans now).run.run s with
  | (.finished (.ok (restored, failed)), s) => (.ok (showOrphans restored failed), s)
  | (.finished (.error e), s) => (.error (.store e), s)
  | (_, s) => (.error .cannotServe, s)

/-- Stores a new task of a workspace that is known. -/
def submit (s : Store) (workspace : String) (kind : TaskKind) (now : UInt64) : Except CommandError (String × Store) := do
  let w ← (s.workspace? workspace).mapError .store
  if w.isNone then throw (.unknownWorkspace workspace)
  let some (t, s) := s.createTask (Task.submitted workspace kind now .manual) | throw (.crashed sumTooLarge)
  return (s!"task {t.id} queued ({t.kind.name})\n", s)

/-- Confirms an apply. -/
def confirmApply (s : Store) (task : UInt64) (user : String) (now : UInt64) : Except CommandError (String × Store) := do
  let (t, s) ← (s.confirmApply task user now).mapError .store
  return (s!"task {t.id} confirmed by {user}; the apply starts on the next dispatch\n", s)

/-- A command that changes nothing if it fails. -/
def orElseKeep (s : Store) : Except CommandError (String × Store) → Except CommandError String × Store
  | .ok (text, s') => (.ok text, s')
  | .error e => (.error e, s)

/-- Carries out a command on a store: what it prints, and the store after it. -/
def Command.run (s : Store) (now : UInt64) : Command → Except CommandError String × Store
  | .serve _ => (.error .cannotServe, s)
  | .recover => CommandLine.recover s now
  | .next workspace => (((s.nextTask workspace).mapError .store).map (showNext workspace), s)
  | .pool id => (((s.poolWorkload id).mapError .store).map (showPool id), s)
  | .submit workspace kind => orElseKeep s (CommandLine.submit s workspace kind now)
  | .confirmApply task user => orElseKeep s (CommandLine.confirmApply s task user now)

/-! ## The program -/

/-- The configuration of a run, given the text of the file that was asked for. -/
def loadConfig (asked : Option String) (file : Option String) : Except CommandError Config :=
  match asked, file with
  | none, _ => .ok {}
  | some _, none => .error .noConfigFile
  | some _, some text => (Config.ofToml text).mapError .config

/-- Where the store of a run is. -/
def storePath (c : Config) (asked : Option String) : String := asked.getD c.store.path

/-- How a run of the program ends. -/
inductive Ending where
  /-- The arguments are not in order. -/
  | misuse
  | printed (text : String)
  | failed (error : CommandError)
  deriving DecidableEq, Repr

namespace Ending

def exitCode : Ending → UInt32
  | misuse => 2
  | printed _ => 0
  | failed (.crashed _) => 101
  | failed _ => 1

def stdout : Ending → String
  | printed text => text
  | _ => ""

def stderr : Ending → String
  | misuse => s!"error: unexpected arguments\n\nUsage: {programName} [OPTIONS] <COMMAND>\n\nFor more information, try '--help'.\n"
  | printed _ => ""
  | failed e => s!"Error: {e.message}\n"

end Ending

/-- The files that runs of the program see: configurations as texts, and stores. -/
structure Files where
  configs : Table String := .empty
  stores : Table Store := .empty
  deriving Inhabited

/-- The configuration file that the arguments name. -/
def configPath? (args : List String) : Option String :=
  match request? args with
  | some (.run config _ _) => config
  | _ => none

/-- The store that the program opens. -/
def storePath? (files : Files) (args : List String) : Option String :=
  match request? args with
  | some (.run config store _) =>
    (loadConfig config (config.bind files.configs.get?)).toOption.map fun c => storePath c store
  | _ => none

/-- Runs the program: how it ends, and the files after it. -/
def run (files : Files) (now : UInt64) (args : List String) : Ending × Files :=
  match request? args with
  | none => (.misuse, files)
  | some (.help command) => (.printed (help command), files)
  | some (.run config store command) =>
    match loadConfig config (config.bind files.configs.get?) with
    | .error e => (.failed e, files)
    | .ok c =>
      let path := storePath c store
      let (result, s) := command.run ((files.stores.get? path).getD {}) now
      let files := { files with stores := files.stores.insert path s }
      match result with
      | .ok text => (.printed text, files)
      | .error e => (.failed e, files)

end TaskFleet.CommandLine
