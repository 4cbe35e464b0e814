/-
  TaskFleet.LocalCommand.Shell.Run — running a script.

  A shell has parameters, a working directory and two output streams, each of which leads
  somewhere. Commands run one after another; the commands of a pipeline pass their output
  on. A script in brackets, in a pipeline or in a word changes nothing of the shell but the
  bytes written; only leaving the shell outside of them, and a signal anywhere, end it.
-/

import TaskFleet.LocalCommand.Basic
import TaskFleet.LocalCommand.Shell.Script
import TaskFleet.LocalCommand.Shell.Tools

namespace TaskFleet.Shell

/-- A running shell. -/
structure State where
  /-- The shell's name and its arguments. -/
  args : List String
  values : List (String × String)
  /-- The parameters that programs find in their environment. -/
  exported : List String
  directory : String
  status : Nat := 0
  stdin : Bytes := []
  /-- The stream that each output goes to, if it goes anywhere. -/
  out : Option Nat := some 0
  err : Option Nat := some 1
  /-- What was written to standard output, to standard error and to open pipes. -/
  streams : List Bytes := [[], []]
  /-- Whether a failure ends the shell. -/
  leavesOnFailure : Bool := false
  /-- Whether the status is about to be looked at. -/
  tested : Bool := false

/-- What ends a shell before its script does. -/
inductive Stop where
  | leave (status : Nat)
  | killed (signal : Nat)
  deriving DecidableEq, Repr

abbrev Run := ExceptT Stop (StateM State)

namespace State

/-- What the shell calls itself. -/
def name (s : State) : String := s.args.headD "sh"

/-- The value of a parameter, if it is set. -/
def value? (s : State) (name : String) : Option String :=
  match name with
  | "$" => some selfId
  | "?" => some (toString s.status)
  | "#" => some (toString (s.args.length - 1))
  | "@" | "*" => some (" ".intercalate s.args.tail)
  | "PWD" => some s.directory
  | name =>
    match Text.natOf? name.toList with
    | some i => s.args[i]?
    | none => s.values.lookup name

/-- Gives a parameter a value. -/
def assign (s : State) (name value : String) : State :=
  { s with values := (name, value) :: s.values.filter (·.1 != name) }

/-- Adds to a stream. -/
def write (s : State) (stream : Option Nat) (bytes : Bytes) : State :=
  match stream with
  | some n => { s with streams := s.streams.modify n (· ++ bytes) }
  | none => s

end State

/-! ## Steps -/

def putOut (bytes : Bytes) : Run Unit := modify fun s => s.write s.out bytes

def putErr (bytes : Bytes) : Run Unit := modify fun s => s.write s.err bytes

def setStatus (n : Nat) : Run Unit := modify fun s => { s with status := n }

/-- Complains in the shell's name. -/
def complain (message : String) (status : Nat) : Run Unit := do
  putErr (utf8 s!"{(← get).name}: 1: {message}\n")
  setStatus status

/-- Shows what a program wrote. -/
def deliver (r : Result) : Run Unit := do
  putErr r.stderr
  putOut r.stdout
  setStatus r.status

/-- Runs in a shell of its own, of which only the status and the bytes written remain. -/
def isolated (body : Run Unit) : Run Unit := do
  let before ← get
  try body catch
    | .leave n => setStatus n
    | stop => throw stop
  modify fun s => { before with status := s.status, stdin := s.stdin, streams := s.streams }

/-- Runs with standard output in a pipe, and gives what went through it. -/
def captured (body : Run Unit) : Run Bytes := do
  let before ← get
  modify fun s => { s with out := some s.streams.length, streams := s.streams ++ [[]] }
  body
  let s ← get
  set { s with out := before.out, streams := s.streams.dropLast }
  return s.streams.getLast?.getD []

/-- Runs where a failure does not end the shell. -/
def looked (body : Run Unit) : Run Unit := do
  let before := (← get).tested
  modify fun s => { s with tested := true }
  body
  modify fun s => { s with tested := before }

/-! ## Words -/

/-- A part of the fields of some words. -/
inductive Part where
  | text (s : List Char) (quoted : Bool)
  | between
  deriving DecidableEq, Repr

/-- Splits a text at blanks, where it continues a field; the last field is still open. -/
def splitFields : (current : Option (List Char)) → List Char → List (List Char) × Option (List Char)
  | current, [] => ([], current)
  | current, c :: r =>
    if c = ' ' ∨ c = '\t' ∨ c = '\n' then
      let (fields, last) := splitFields none r
      (current.toList ++ fields, last)
    else splitFields (some (current.getD [] ++ [c])) r

/-- The fields that some parts make, where they continue a field. -/
def fieldsOf : (current : Option (List Char)) → List Part → List (List Char)
  | current, [] => current.toList
  | current, .between :: r => current.toList ++ fieldsOf none r
  | current, .text s true :: r => fieldsOf (some (current.getD [] ++ s)) r
  | current, .text s false :: r =>
    let (fields, last) := splitFields current s
    fields ++ fieldsOf last r

/-- The parts that a parameter stands for. -/
def State.parts (s : State) (name : String) (otherwise : List Char) (quoted : Bool) : List Part :=
  if name = "@" ∧ quoted then (s.args.tail.map fun a => Part.text a.toList true).intersperse .between
  else
    match s.value? name with
    | some v => [.text (if v = "" then otherwise else v.toList) quoted]
    | none => [.text otherwise quoted]

/-! ## Commands of the shell itself -/

/-- Sends a signal; only to the shell itself. -/
def sendSignal (args : List String) : Run Unit := do
  match kill? args with
  | .error message => complain s!"kill: {message}" 2
  | .ok (signal, target) =>
    if target = selfId then
      unless harmless.contains signal do throw (.killed signal)
      setStatus 0
    else complain "kill: No such process" 1

/-- Leaves the shell, with its last status if none is given. -/
def leave (command : String) : List String → Run Unit
  | [] => do throw (.leave (← get).status)
  | n :: _ => do
    match Text.natOf? n.toList with
    | some n => throw (.leave (n % 256))
    | none =>
      complain s!"{command}: Illegal number: {n}" 2
      throw (.leave 2)

def changeDirectory (path : String) : Run Unit := do
  match Host.directory (Host.join (← get).directory path) with
  | .ok directory =>
    modify fun s => { s with directory }
    setStatus 0
  | .error _ => complain s!"cd: can't cd to {path}" 2

/-- Hands parameters, with or without new values, to the programs that the shell starts. -/
def exportAll (args : List String) : Run Unit := do
  for arg in args do
    let name := String.ofList (arg.toList.takeWhile (· != '='))
    match arg.toList.dropWhile (· != '=') with
    | _ :: value => modify fun s => s.assign name (String.ofList value)
    | [] => pure ()
    modify fun s => { s with exported := name :: s.exported }
  setStatus 0

/-- What a shell says when a signal has ended a program. -/
def deathNotice (signal : Nat) : String :=
  match ([(1, "Hangup"), (3, "Quit"), (4, "Illegal instruction"), (5, "Trace/breakpoint trap"), (6, "Aborted"),
      (7, "Bus error"), (8, "Floating point exception"), (9, "Killed"), (10, "User defined signal 1"),
      (11, "Segmentation fault"), (12, "User defined signal 2"), (14, "Alarm clock"), (15, "Terminated")]
      : List (Nat × String)).lookup signal with
  | some notice => notice ++ "\n"
  | none => ""

/-- Changes the way the shell runs. -/
def setOption (args : List String) : Run Unit := do
  if args.head?.any fun a => a.startsWith "-" && a.toList.contains 'e' then
    modify fun s => { s with leavesOnFailure := true }
  if args.head? = some "+e" then modify fun s => { s with leavesOnFailure := false }
  setStatus 0

/-- Reads a line into a parameter. -/
def readLine (args : List String) : Run Unit := do
  let line := (← get).stdin.takeWhile (· != 10)
  let rest := (← get).stdin.dropWhile (· != 10)
  let name := (args.filter fun a => !a.startsWith "-").headD "REPLY"
  modify fun s => { s.assign name (String.ofList (Text.trim (Text.decodeLossy line))) with stdin := rest.drop 1 }
  setStatus (if rest.isEmpty then 1 else 0)

/-- The programs that read all of their input. -/
def filters : List String := ["cat", "head", "tail", "tr", "wc"]

/-- What a program that the shell finds does; none if there is no such program. -/
def program? (s : State) : List String → Option Result
  | "echo" :: args => some (echo args)
  | "printf" :: args => some (printf s.name args)
  | "seq" :: args => some (seq args)
  | "yes" :: args => some (yes args)
  | "head" :: args => some (head args s.stdin)
  | "tail" :: args => some (tail args s.stdin)
  | "cat" :: args => some (cat args s.stdin)
  | "wc" :: args => some (wc args s.stdin)
  | "tr" :: args => some (tr args s.stdin)
  | "ls" :: args => some (ls s.directory args)
  | "test" :: args => some (test s.name "test" s.directory args)
  | "[" :: args =>
    some (if args.getLast? = some "]" then test s.name "[" s.directory args.dropLast
      else .complain s!"{s.name}: 1: [: missing ]" 2)
  | "printenv" :: name :: _ =>
    some (match s.exported.contains name, s.value? name with
      | true, some v => { stdout := utf8 (v ++ "\n") }
      | _, _ => { status := 1 })
  | "pwd" :: _ => some { stdout := utf8 (s.directory ++ "\n") }
  | "true" :: _ | "/bin/true" :: _ | "/usr/bin/true" :: _ => some {}
  | ":" :: _ | "sleep" :: _ | "wait" :: _ | "umask" :: _ => some {}
  | "false" :: _ | "/bin/false" :: _ | "/usr/bin/false" :: _ => some { status := 1 }
  | _ => none

/-- Runs a program; complaints name the command that runs it. -/
def runProgram (caller : String) (args : List String) : Run Unit := do
  match program? (← get) args with
  | some r =>
    if filters.contains (args.headD "") then modify fun s => { s with stdin := [] }
    deliver r
  | none =>
    let name := args.headD ""
    if name.toList.contains '/' ∧ Host.isDirectory (Host.join (← get).directory name) then
      complain s!"{caller}{name}: Permission denied" 126
    else complain s!"{caller}{name}: not found" 127

/-- Makes a stream lead to another one, or nowhere. -/
def State.connect (s : State) (stream : Nat) (sink : Option Nat) : State :=
  if stream = 1 then { s with out := sink } else if stream = 2 then { s with err := sink } else s

/-- The shell with a stream that leads to a file, or why there is none. -/
def State.connectFile (s : State) (stream : Nat) (path : String) : Except String State :=
  let parts := Host.parts (Host.join s.directory path)
  if stream = 0 then
    match contents "" path endless with
    | .ok bytes => .ok { s with stdin := bytes }
    | .error _ => .error s!"cannot open {path}: No such file"
  else if path = "/dev/stdout" then .ok (s.connect stream s.out)
  else if path = "/dev/stderr" then .ok (s.connect stream s.err)
  else if Host.directories.contains parts then .error s!"cannot create {path}: Is a directory"
  else if Host.directories.contains parts.dropLast then .ok (s.connect stream none)
  else .error s!"cannot create {path}: Directory nonexistent"

/-- The shell with a stream that leads to another one. -/
def State.connectStream (s : State) (stream : Nat) : Nat → Except String State
  | 1 => .ok (s.connect stream s.out)
  | 2 => .ok (s.connect stream s.err)
  | n => .error s!"{n}: Bad file descriptor"

/-! ## Scripts -/

def Pipeline.joint : Pipeline → Joint
  | .mk joint _ _ => joint

/-- The pipelines of a script, each with the joint behind it. -/
def Script.steps (script : Script) : List (Pipeline × Joint) :=
  script.zip ((script.drop 1).map Pipeline.joint ++ [.always])

/-- Whether a pipeline runs after a status. -/
def Joint.allows : Joint → Nat → Bool
  | always, _ => true
  | ifSucceeded, status => status = 0
  | ifFailed, status => status != 0

/-- Whether some of a word is what a script writes. -/
def hasOutput (w : Word) : Bool :=
  w.any fun p =>
    match p with
    | .output _ _ => true
    | _ => false

mutual

/-- Runs pipelines one after another. -/
def runAll : (fuel : Nat) → Script → Run Unit
  | 0, _ => throw (.leave 2)
  | fuel + 1, script =>
    script.steps.forM fun (p, next) => do
      if p.joint.allows (← get).status then
        let .mk _ negated commands := p
        if negated ∨ next ≠ .always then looked (runPipeline fuel commands) else runPipeline fuel commands
        if negated then
          setStatus (if (← get).status = 0 then 1 else 0)
        else
          let s ← get
          if s.leavesOnFailure ∧ !s.tested ∧ s.status ≠ 0 ∧ next = .always then throw (.leave s.status)

/-- Runs the commands between pipes, several of them each in a shell of its own. -/
def runPipeline : (fuel : Nat) → List Command → Run Unit
  | 0, _ => throw (.leave 2)
  | fuel + 1, [c] => runCommand fuel c
  | fuel + 1, cs => do
    let stdin := (← get).stdin
    cs.dropLast.forM fun c => do
      let bytes ← captured (isolated (runCommand fuel c))
      modify fun s => { s with stdin := bytes }
    cs.getLast?.toList.forM fun c => isolated (runCommand fuel c)
    modify fun s => { s with stdin }

/-- Runs one command. -/
def runCommand : (fuel : Nat) → Command → Run Unit
  | 0, _ => throw (.leave 2)
  | fuel + 1, .simple words redirects => runSimple fuel words redirects
  | fuel + 1, .group alone body redirects =>
    runRedirected fuel redirects (if alone then isolated (runAll fuel body) else runAll fuel body)
  | fuel + 1, .choice condition yes no redirects =>
    runRedirected fuel redirects do
      looked (runAll fuel condition)
      if (← get).status = 0 then runAll fuel yes
      else if no.isEmpty then setStatus 0
      else runAll fuel no
  | fuel + 1, .each name values body redirects =>
    runRedirected fuel redirects do
      let fields ← values.flatMapM (expand fuel)
      setStatus 0
      fields.forM fun f => do
        modify fun s => s.assign name f
        runAll fuel body

/-- Runs with redirections, in the order in which they are written; not at all if one of
    them fails. -/
def runRedirected : (fuel : Nat) → List Redirect → Run Unit → Run Unit
  | 0, _, _ => throw (.leave 2)
  | fuel + 1, redirects, body => do
    let before ← get
    if ← redirects.allM (sendStream fuel) then body
    let after ← get
    let stdin := if redirects.any (·.stream = 0) then before.stdin else after.stdin
    set { after with stdin, out := before.out, err := before.err }

/-- Sends a stream somewhere else; says whether that worked. -/
def sendStream : (fuel : Nat) → Redirect → Run Bool
  | 0, _ => throw (.leave 2)
  | fuel + 1, r => do
    let connected ← match r.target with
      | .stream n => pure ((← get).connectStream r.stream n)
      | .file w => do
        let path ← wordText fuel w
        pure ((← get).connectFile r.stream path)
    match connected with
    | .ok s =>
      set s
      return true
    | .error message =>
      complain message 2
      return false

/-- Runs a command of words: assignments, then a program and its arguments. -/
def runSimple : (fuel : Nat) → List Word → List Redirect → Run Unit
  | 0, _, _ => throw (.leave 2)
  | fuel + 1, words, redirects => do
    let assignments := (words.map assignment?).takeWhile Option.isSome |>.filterMap id
    let fields ← (words.drop assignments.length).flatMapM (expand fuel)
    let before ← get
    assignments.forM fun (name, w) => do
      let value ← wordText fuel w
      modify fun s => s.assign name value
    match fields with
    | [] =>
      unless words.any hasOutput do setStatus 0
      runRedirected fuel redirects (pure ())
    | ["exec"] => discard (redirects.allM (sendStream fuel))
    | fields =>
      modify fun s => { s with exported := assignments.map (·.1) ++ s.exported }
      runRedirected fuel redirects (runFields fuel fields)
      unless assignments.isEmpty do
        modify fun s => { s with values := before.values, exported := before.exported }

/-- Runs a program with its arguments. -/
def runFields : (fuel : Nat) → List String → Run Unit
  | 0, _ => throw (.leave 2)
  | fuel + 1, fields =>
    match fields with
    | "exit" :: args => leave "exit" args
    | "return" :: args => leave "return" args
    | "cd" :: args => do changeDirectory ((args.head?.or ((← get).value? "HOME")).getD "/")
    | "kill" :: args => sendSignal args
    | "export" :: args => exportAll args
    | "unset" :: args => do
      modify fun s => { s with values := s.values.filter fun v => !args.contains v.1 }
      setStatus 0
    | "set" :: args => setOption args
    | "read" :: args => readLine args
    | "eval" :: args => runText fuel (" ".intercalate args)
    | "exec" :: "sh" :: "-c" :: script :: args => runShell fuel args script
    | "exec" :: args => do
      runProgram "exec: " args
      throw (.leave (← get).status)
    | "sh" :: "-c" :: script :: args =>
      tryCatch (runShell fuel args script) fun
        | .leave n => setStatus n
        | .killed n => do
          putErr (utf8 (deathNotice n))
          setStatus (128 + n)
    | fields => runProgram "" fields

/-- Runs a script in a new shell, and ends as that one does. -/
def runShell : (fuel : Nat) → (args : List String) → (script : String) → Run Unit
  | 0, _, _ => throw (.leave 2)
  | fuel + 1, args, script => do
    let before ← get
    set { before with
      args := if args.isEmpty then ["sh"] else args
      values := before.values.filter fun v => before.exported.contains v.1
      leavesOnFailure := false
      tested := false
      status := 0 }
    let stop ← tryCatch (do runText fuel script; return .leave (← get).status) pure
    modify fun s => { before with stdin := s.stdin, streams := s.streams }
    throw stop

/-- Runs a script as it is written. -/
def runText : (fuel : Nat) → String → Run Unit
  | 0, _ => throw (.leave 2)
  | fuel + 1, text =>
    match script text.toList with
    | .ok script => do
      if script.isEmpty then setStatus 0
      runAll fuel script
    | .error e => do
      complain e.message 2
      throw (.leave 2)

/-- The parts of a word. -/
def partsOf : (fuel : Nat) → Word → Run (List Part)
  | 0, _ => throw (.leave 2)
  | fuel + 1, w =>
    w.flatMapM fun p => do
      match p with
      | .text s quoted => return [.text s quoted]
      | .parameter name otherwise quoted => return (← get).parts name otherwise quoted
      | .output script quoted =>
        let bytes ← captured (isolated (runText fuel (String.ofList script)))
        let text := Text.decodeLossy (bytes.reverse.dropWhile (· = 10)).reverse
        return [.text text quoted]

/-- The fields of a word. -/
def expand : (fuel : Nat) → Word → Run (List String)
  | 0, _ => throw (.leave 2)
  | fuel + 1, w => return (fieldsOf none (← partsOf fuel w)).map String.ofList

/-- The text of a word that is one field. -/
def wordText : (fuel : Nat) → Word → Run String
  | 0, _ => throw (.leave 2)
  | fuel + 1, w =>
    return String.ofList ((← partsOf fuel w).flatMap fun p =>
      match p with
      | .text s _ => s
      | .between => [' '])

end

/-- Runs a script as it is written: how the shell ended, and its standard error. -/
def run (start : State) (script : String) : ExitStatus × Bytes :=
  let (result, s) := (runText (16 * script.length + 1000) script).run start
  let status := match result with
    | .ok () => .code s.status
    | .error (.leave n) => .code n
    | .error (.killed n) => .signal n false
  (status, s.streams[1]?.getD [])

end TaskFleet.Shell
