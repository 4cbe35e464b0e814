/-
  TaskFleet.Text.Quoted — names and lists as they are shown to an operator.

  A name stands in quotes; a quote, a backslash and every character that cannot be shown as
  it is are escaped. A list stands in brackets.
-/

import TaskFleet.Text.Printable

namespace TaskFleet.Text

/-- A character inside a name. -/
def escapeShown (c : Char) : List Char :=
  match c with
  | '"' => ['\\', '"']
  | '\\' => ['\\', '\\']
  | '\n' => ['\\', 'n']
  | '\r' => ['\\', 'r']
  | '\t' => ['\\', 't']
  | c =>
    if c.toNat = 0 then ['\\', '0']
    else if isPrintable c then [c]
    else ['\\', 'u', '\x7b'] ++ Nat.toDigits 16 c.toNat ++ ['\x7d']

/-- A name in quotes. -/
def quoted (s : String) : String := String.ofList ('"' :: s.toList.flatMap escapeShown ++ ['"'])

/-- A list in brackets. -/
def bracketed (items : List String) : String := "[" ++ ", ".intercalate items ++ "]"

/-- A list of names. -/
def quotedList (names : List String) : String := bracketed (names.map quoted)

end TaskFleet.Text
