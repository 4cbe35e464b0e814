/-
  TaskFleet.LocalCommand.Shell.Tools — the small programs that scripts are made of.

  Each takes its arguments and the bytes on its standard input, and gives the bytes it
  writes and its status.
-/

import TaskFleet.LocalCommand.Directory
import TaskFleet.LocalCommand.Shell.Format

namespace TaskFleet.Shell

/-- What a program wrote and how it ended. -/
structure Result where
  stdout : Bytes := []
  stderr : Bytes := []
  status : Nat := 0
  deriving DecidableEq, Repr

/-- A program that complains and fails. -/
def Result.complain (message : String) (status : Nat) : Result := { stderr := utf8 (message ++ "\n"), status }

/-- A program that only gives an answer. -/
def Result.ofBool (b : Bool) : Result := { status := if b then 0 else 1 }

/-! ## Writing -/

/-- Writes its arguments with blanks between them. -/
def echo (args : List String) : Result :=
  let (withNewline, args) := match args with
    | "-n" :: r => (false, r)
    | args => (true, args)
  let (bytes, done) := argument (" ".intercalate args)
  { stdout := bytes ++ if withNewline ∧ !done then [10] else [] }

/-- Lays out its arguments; complaints carry the shell's name. -/
def printf (shell : String) : List String → Result
  | [] | ["--"] => .complain s!"{shell}: 1: printf: usage: printf format [arg ...]" 2
  | "--" :: format :: args => laidOut format args
  | format :: args =>
    match format.toList with
    | '-' :: c :: _ => .complain s!"{shell}: 1: printf: Illegal option -{c}" 2
    | _ => laidOut format args
where
  laidOut (format : String) (args : List String) : Result :=
    let l := formatAll format (args.length + 1) { args }
    { stdout := l.bytes
      stderr := l.complaints.flatMap fun c => utf8 s!"{shell}: 1: {c}\n"
      status := if l.complaints.isEmpty then 0 else 1 }

/-- Counts up, one number a line. -/
def seq (args : List String) : Result :=
  match args.mapM fun a => Text.natOf? a.toList with
  | some [last] => { stdout := (List.range last).flatMap fun i => utf8 s!"{i + 1}\n" }
  | some [first, last] => { stdout := (List.range (last + 1 - first)).flatMap fun i => utf8 s!"{first + i}\n" }
  | _ => .complain "seq: missing operand" 1

/-- Writes a line again and again, more often than anyone reads it here. -/
def yes (args : List String) : Result :=
  let line := if args.isEmpty then "y" else " ".intercalate args
  { stdout := (List.replicate 2000 (utf8 (line ++ "\n"))).flatten }

/-! ## Filters -/

/-- The lines of some bytes, each with its line feed. -/
def lines : Bytes → List Bytes
  | [] => []
  | b :: r =>
    if b = 10 then [b] :: lines r
    else
      match lines r with
      | [] => [[b]]
      | l :: ls => (b :: l) :: ls

/-- What an option like `-n 3`, `-n3` or `-3` counts, how much, and the other arguments. -/
def count? : List String → Option (Char × Nat × List String)
  | [] => some ('n', 10, [])
  | arg :: r =>
    match arg.toList, r with
    | ['-', unit], n :: r =>
      if unit.isDigit then (Text.digit? unit).map fun d => ('n', d, n :: r)
      else (Text.natOf? n.toList).map fun n => (unit, n, r)
    | '-' :: unit :: n, r =>
      if unit.isDigit then (Text.natOf? (unit :: n)).map fun n => ('n', n, r)
      else (Text.natOf? n).map fun n => (unit, n, r)
    | _, _ => some ('n', 10, arg :: r)

/-- The most bytes of an endless file that are read. -/
def endless : Nat := 100000

/-- The bytes of a file, of which some are asked for. -/
def contents (tool path : String) (asked : Nat) : Except String Bytes :=
  if path = "/dev/zero" then .ok (List.replicate (min asked endless) 0)
  else if path = "/dev/null" then .ok []
  else if Host.isDirectory path then .error s!"{tool}: error reading '{path}': Is a directory"
  else .error s!"{tool}: cannot open '{path}' for reading: No such file or directory"

/-- A part of the input, or of a file; `last` is for the last part and not the first. -/
def part (tool : String) (last : Bool) (args : List String) (stdin : Bytes) : Result :=
  match count? args with
  | none => .complain s!"{tool}: invalid option" 1
  | some (unit, n, paths) =>
    let input : Except String Bytes := match paths with
      | [] | ["-"] => .ok stdin
      | path :: _ => contents tool path n
    match input with
    | .error message => .complain message 1
    | .ok input =>
      let cut {α : Type} (l : List α) : List α := if last then l.drop (l.length - n) else l.take n
      { stdout := if unit = 'c' then cut input else (cut (lines input)).flatten }

def head (args : List String) (stdin : Bytes) : Result := part "head" false args stdin

def tail (args : List String) (stdin : Bytes) : Result := part "tail" true args stdin

/-- Writes the input, or files. -/
def cat (args : List String) (stdin : Bytes) : Result :=
  match args with
  | [] | ["-"] => { stdout := stdin }
  | ["/dev/null"] => {}
  | path :: _ =>
    if Host.isDirectory path then .complain s!"cat: {path}: Is a directory" 1
    else .complain s!"cat: {path}: No such file or directory" 1

/-- Counts the bytes or the lines of the input. -/
def wc (args : List String) (stdin : Bytes) : Result :=
  match args with
  | ["-c"] => { stdout := utf8 s!"{stdin.length}\n" }
  | ["-l"] => { stdout := utf8 s!"{stdin.count 10}\n" }
  | _ => .complain "wc: invalid option" 1

/-- Fills in the ranges of a set of bytes. -/
def ranges : Bytes → Bytes
  | a :: 45 :: b :: r => (List.range (b.toNat + 1 - a.toNat)).map (fun i => UInt8.ofNat (a.toNat + i)) ++ ranges r
  | a :: r => a :: ranges r
  | [] => []

/-- The bytes of a set. -/
def byteSet (s : String) : Bytes :=
  match s with
  | "[:lower:]" => ranges [97, 45, 122]
  | "[:upper:]" => ranges [65, 45, 90]
  | "[:digit:]" => ranges [48, 45, 57]
  | "[:space:]" => [9, 10, 11, 12, 13, 32]
  | s => ranges (argument s).1

/-- Replaces each byte of one set by the byte at its place in another, or by its last; or
    leaves out the bytes of a set. -/
def tr (args : List String) (stdin : Bytes) : Result :=
  match args with
  | ["-d", set] => { stdout := stdin.filter fun b => !(byteSet set).contains b }
  | [source, target] =>
    let source := byteSet source
    let target := byteSet target
    let replace (b : UInt8) : UInt8 :=
      if source.contains b then (target[source.idxOf b]?.or target.getLast?).getD b else b
    { stdout := stdin.map replace }
  | _ => .complain "tr: missing operand" 1

/-! ## Questions -/

/-- Whether a condition holds, with paths from a directory; none if it is not one. -/
def condition? (directory : String) : List String → Option Bool
  | [] => some false
  | [s] => some (s != "")
  | "!" :: r => (condition? directory r).map (!·)
  | ["-n", s] => some (s != "")
  | ["-z", s] => some (s = "")
  | ["-d", s] => some (Host.isDirectory (Host.join directory s))
  | ["-f", s] => some (Host.isFile (Host.join directory s) && !s.startsWith "/dev/")
  | ["-e", s] => some (Host.isDirectory (Host.join directory s) || Host.isFile (Host.join directory s))
  | [a, "=", b] => some (a = b)
  | [a, "!=", b] => some (a != b)
  | [a, op, b] => do
    let (x, []) := leadingInt a.toList | none
    let (y, []) := leadingInt b.toList | none
    match op with
    | "-eq" => some (x = y)
    | "-ne" => some (x != y)
    | "-lt" => some (decide (x < y))
    | "-le" => some (decide (x ≤ y))
    | "-gt" => some (decide (y < x))
    | "-ge" => some (decide (y ≤ x))
    | _ => none
  | _ => none

/-- Says whether a condition holds; `name` is what the program was called by. -/
def test (shell name directory : String) (args : List String) : Result :=
  match condition? directory args with
  | some b => .ofBool b
  | none => .complain (s!"{shell}: 1: {name}: " ++ args.headD "" ++ ": unexpected operator") 2

/-- Looks for a path; shows nothing of what is there. -/
def ls (directory : String) (args : List String) : Result :=
  let paths := args.filter fun a => !a.startsWith "-"
  let isThere (p : String) := Host.isDirectory (Host.join directory p) || Host.isFile (Host.join directory p)
  { stderr := (paths.filter fun p => !isThere p).flatMap fun p =>
      utf8 s!"ls: cannot access '{p}': No such file or directory\n"
    status := if paths.all isThere then 0 else 2 }

/-! ## Signals -/

/-- The signals by name. -/
def signals : List (String × Nat) :=
  [("HUP", 1), ("INT", 2), ("QUIT", 3), ("ILL", 4), ("TRAP", 5), ("ABRT", 6), ("BUS", 7), ("FPE", 8), ("KILL", 9),
    ("USR1", 10), ("SEGV", 11), ("USR2", 12), ("PIPE", 13), ("ALRM", 14), ("TERM", 15), ("CHLD", 17),
    ("CONT", 18), ("STOP", 19), ("TSTP", 20), ("TTIN", 21), ("TTOU", 22), ("URG", 23), ("XCPU", 24), ("XFSZ", 25),
    ("VTALRM", 26), ("PROF", 27), ("WINCH", 28), ("IO", 29), ("PWR", 30), ("SYS", 31)]

/-- A signal by its number or its name. -/
def signal? (s : String) : Option Nat :=
  match Text.natOf? s.toList with
  | some n => if n ≤ 64 then some n else none
  | none => signals.lookup (String.ofList (s.toList.map Char.toUpper))

/-- The signals that leave a process as it is. -/
def harmless : List Nat := [0, 17, 18, 23, 28]

/-- What a shell calls itself. -/
def selfId : String := "4242"

/-- The signal to send and the process to send it to. -/
def kill? : List String → Except String (Nat × String)
  | ["-s", signal, target] => named signal signal target
  | [option, target] =>
    match option.toList with
    | '-' :: name => named (String.ofList name) (String.ofList name) target
    | _ => .ok (15, target)
  | [target] => .ok (15, target)
  | _ => .error "Usage: kill [-s sigspec | -signum | -sigspec] [pid | job]... or\nkill -l [exitstatus]"
where
  named (name shown target : String) : Except String (Nat × String) :=
    match signal? name with
    | some n => .ok (n, target)
    | none => .error s!"Illegal option -{String.ofList (shown.toList.take 1)}"

end TaskFleet.Shell
