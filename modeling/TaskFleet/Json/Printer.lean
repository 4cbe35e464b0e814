/-
  TaskFleet.Json.Printer — writes a tree as JSON, on one line or indented by two spaces.

  Only the quote, the backslash and control characters are escaped.
-/

import TaskFleet.Datum.Basic
import TaskFleet.Decimal.Shortest

namespace TaskFleet.Json

/-- A hexadecimal digit, in lower case. -/
def hexChar (n : Nat) : Char := if n < 10 then Char.ofNat (48 + n) else Char.ofNat (87 + n)

/-- A character inside a string. -/
def escape (c : Char) : List Char :=
  match c with
  | '"' => ['\\', '"']
  | '\\' => ['\\', '\\']
  | '\x08' => ['\\', 'b']
  | '\x0c' => ['\\', 'f']
  | '\n' => ['\\', 'n']
  | '\r' => ['\\', 'r']
  | '\t' => ['\\', 't']
  | c =>
    if c.toNat < 0x20 then ['\\', 'u', '0', '0', hexChar (c.toNat / 16), hexChar (c.toNat % 16)] else [c]

/-- A string in its quotes. -/
def quote (s : String) : String := String.ofList ('"' :: s.toList.flatMap escape ++ ['"'])

/-- Whether lists and records are spread over lines. -/
inductive Layout where
  | compact
  | indented
  deriving DecidableEq

namespace Layout

/-- A new line at some depth. -/
def newline (l : Layout) (depth : Nat) : String :=
  match l with
  | compact => ""
  | indented => "\n" ++ String.ofList (List.replicate (2 * depth) ' ')

def colon : Layout → String
  | compact => ":"
  | indented => ": "

end Layout

/-- Elements between two brackets, each on its own line where lines are used. -/
def bracket (l : Layout) (depth : Nat) (opening closing : String) (items : List String) : String :=
  if items.isEmpty then opening ++ closing
  else
    opening ++ l.newline (depth + 1) ++ ("," ++ l.newline (depth + 1)).intercalate items
      ++ l.newline depth ++ closing

/-- A decimal number; one without a value, or that is not finite, is null. -/
def numberText : Option Float → String
  | some x => if x.isNaN || x.isInf then "null" else Decimal.text x
  | none => "null"

mutual

/-- Writes a tree. -/
def render (l : Layout) (depth : Nat) : Datum → String
  | .null => "null"
  | .bool b => if b then "true" else "false"
  | .whole n => toString n
  | .real x => numberText x
  | .text s => quote (s.getD "")
  | .list items => bracket l depth "[" "]" (renderItems l (depth + 1) items)
  | .record fields => bracket l depth "\x7b" "\x7d" (renderFields l (depth + 1) fields)
  | .moment => "null"

def renderItems (l : Layout) (depth : Nat) : List Datum → List String
  | [] => []
  | d :: ds => render l depth d :: renderItems l depth ds

def renderFields (l : Layout) (depth : Nat) : List (Option String × Datum) → List String
  | [] => []
  | (k, d) :: fs => (quote (k.getD "") ++ l.colon ++ render l depth d) :: renderFields l depth fs

end

/-- A tree on one line. -/
def compress (d : Datum) : String := render .compact 0 d

/-- A tree over several lines. -/
def pretty (d : Datum) : String := render .indented 0 d

end TaskFleet.Json
