/-
  TaskFleet.Toml.Quoted — how strings are written in TOML texts.

  A string is written in quotes if nothing in it needs an escape, else in apostrophes if
  that saves the escapes, else over several lines if that does, and with escapes only where
  all else fails.
-/

import TaskFleet.Json.Printer

namespace TaskFleet.Toml

/-- What decides about the form of a string. -/
structure Traits where
  /-- A control character that only an escape can write. -/
  hasControl : Bool
  hasBackslash : Bool
  hasNewline : Bool
  /-- The longest run of quotes. -/
  quotes : Nat
  /-- The longest run of apostrophes. -/
  apostrophes : Nat

/-- Whether only an escape can write a character. -/
def isControl (c : Char) : Bool := (c.toNat < 0x20 && c != '\t' && c != '\n') || c.toNat = 0x7f

/-- The longest run of a character, where the list continues a run of some length. -/
def longestRun (c : Char) : (run : Nat) → List Char → Nat
  | run, [] => run
  | run, c' :: r => if c' = c then longestRun c (run + 1) r else max run (longestRun c 0 r)

def Traits.of (cs : List Char) : Traits where
  hasControl := cs.any isControl
  hasBackslash := cs.contains '\\'
  hasNewline := cs.contains '\n'
  quotes := longestRun '"' 0 cs
  apostrophes := longestRun '\'' 0 cs

/-- A form that a string may be written in. -/
structure Form where
  quote : Char
  isMultiline : Bool
  deriving DecidableEq, Repr

namespace Form

/-- The first form that does without escapes, or else quotes. -/
def choose (t : Traits) : Form :=
  if !t.hasControl && !t.hasBackslash && t.quotes = 0 && !t.hasNewline then ⟨'"', false⟩
  else if !t.hasControl && t.apostrophes = 0 && !t.hasNewline then ⟨'\'', false⟩
  else if !t.hasControl && !t.hasBackslash && t.quotes ≤ 2 then ⟨'"', true⟩
  else if !t.hasControl && t.apostrophes ≤ 2 then ⟨'\'', true⟩
  else ⟨'"', t.hasNewline⟩

/-- The longest run of quotes that needs no escape. -/
def freeQuotes (f : Form) : Nat := if f.isMultiline then 2 else 0

/-- A character that is no quote, in quotes. -/
def escape (f : Form) (c : Char) : List Char :=
  match c with
  | '\\' => ['\\', '\\']
  | '\t' => ['\\', 't']
  | '\x08' => ['\\', 'b']
  | '\x0c' => ['\\', 'f']
  | '\r' => ['\\', 'r']
  | '\n' => if f.isMultiline then ['\n'] else ['\\', 'n']
  | c =>
    if isControl c then ['\\', 'u', '0', '0', Json.hexChar (c.toNat / 16), (Json.hexChar (c.toNat % 16)).toUpper]
    else [c]

/-- The inside of a string in quotes, behind so many quotes. -/
def escapeAll (f : Form) : (run : Nat) → List Char → List Char
  | _, [] => []
  | run, '"' :: r => if run < f.freeQuotes then '"' :: escapeAll f (run + 1) r else '\\' :: '"' :: escapeAll f 0 r
  | _, c :: r => f.escape c ++ escapeAll f 0 r

/-- What stands at both ends. -/
def fence (f : Form) : List Char := List.replicate (if f.isMultiline then 3 else 1) f.quote

/-- A string in a form. -/
def write (f : Form) (cs : List Char) : List Char :=
  f.fence ++ (if f.isMultiline && cs.contains '\n' then ['\n'] else [])
    ++ (if f.quote = '"' then f.escapeAll 0 cs else cs) ++ f.fence

end Form

/-- A string as it is written. -/
def quoted (s : String) : String := String.ofList ((Form.choose (.of s.toList)).write s.toList)

end TaskFleet.Toml
