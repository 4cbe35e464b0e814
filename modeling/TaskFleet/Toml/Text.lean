/-
  TaskFleet.Toml.Text — strings in TOML texts.

  A string stands between quotes or apostrophes, in one line or, with three of them on each
  side, over several. Quotes allow escapes, apostrophes do not. A multi-line string drops a
  line break right after its opening, reads every line break as one newline, lets a
  backslash at the end of a line swallow the blanks and line breaks that follow, and may end
  with up to two of its own quotes.
-/

import TaskFleet.Json.Reader

namespace TaskFleet.Toml

/-- A character that may stand in a line: a tab, or no control character of ASCII. -/
def isPlain (c : Char) : Bool := c = '\t' || (0x20 ≤ c.toNat && c.toNat != 0x7f)

/-- The line break at the front, taken off. -/
def lineBreak? : List Char → Option (List Char)
  | '\n' :: r | '\r' :: '\n' :: r => some r
  | _ => none

/-- The character that hexadecimal digits name, if it is one. -/
def scalar? (digits : List Char) : Option Char := do
  let ds ← digits.mapM Json.hexDigit?
  let n := ds.foldl (fun n d => 16 * n + d) 0
  if n < 0xD800 ∨ (0xDFFF < n ∧ n < 0x110000) then some (Char.ofNat n) else none

/-- An escape after its backslash. -/
def escape? : List Char → Option (Char × List Char)
  | 'u' :: a :: b :: c :: d :: r => (scalar? [a, b, c, d]).map (·, r)
  | 'U' :: a :: b :: c :: d :: e :: f :: g :: h :: r => (scalar? [a, b, c, d, e, f, g, h]).map (·, r)
  | 'b' :: r => some ('\x08', r)
  | 't' :: r => some ('\t', r)
  | 'n' :: r => some ('\n', r)
  | 'f' :: r => some ('\x0c', r)
  | 'r' :: r => some ('\r', r)
  | '"' :: r => some ('"', r)
  | '\\' :: r => some ('\\', r)
  | _ => none

/-- Without the blanks and line breaks at the front. -/
def skipLines : List Char → List Char
  | '\r' :: '\n' :: r => skipLines r
  | c :: r => if c = ' ' ∨ c = '\t' ∨ c = '\n' then skipLines r else c :: r
  | [] => []

/-- What follows a backslash at the end of a line; none if the line goes on. -/
def joinLines? (cs : List Char) : Option (List Char) :=
  (lineBreak? (cs.dropWhile fun c => c = ' ' || c = '\t')).map skipLines

/-! ## In one line -/

/-- A string in quotes, after the opening one. -/
def basic? : (fuel : Nat) → List Char → Option (List Char × List Char)
  | 0, _ => none
  | fuel + 1, cs =>
    match cs with
    | [] => none
    | '"' :: r => some ([], r)
    | '\\' :: r => do
      let (c, r) ← escape? r
      let (s, r) ← basic? fuel r
      return (c :: s, r)
    | c :: r => if isPlain c then (basic? fuel r).map fun (s, r) => (c :: s, r) else none

/-- A string in apostrophes, after the opening one. -/
def literal? : List Char → Option (List Char × List Char)
  | [] => none
  | '\'' :: r => some ([], r)
  | c :: r => if isPlain c then (literal? r).map fun (s, r) => (c :: s, r) else none

/-! ## Over several lines -/

/-- What stands behind three closing quotes: up to two more belong to the string. -/
def closing (quote : Char) : List Char → List Char × List Char
  | a :: b :: r =>
    if a = quote ∧ b = quote then ([quote, quote], r) else if a = quote then ([quote], b :: r) else ([], a :: b :: r)
  | [a] => if a = quote then ([quote], []) else ([], [a])
  | [] => ([], [])

/-- A multi-line string, after its opening. -/
def lines? (quote : Char) : (fuel : Nat) → List Char → Option (List Char × List Char)
  | 0, _ => none
  | fuel + 1, cs =>
    let on (c : Char) (r : List Char) := (lines? quote fuel r).map fun (s, r) => (c :: s, r)
    match cs with
    | [] => none
    | '\n' :: r | '\r' :: '\n' :: r => on '\n' r
    | c :: r =>
      if c = quote then
        if [quote, quote].isPrefixOf r then some (closing quote (r.drop 2)) else on c r
      else if c = '\\' ∧ quote = '"' then
        match joinLines? r with
        | some r' => lines? quote fuel r'
        | none => (escape? r).bind fun (c, r) => on c r
      else if isPlain c then on c r
      else none

/-! ## Any string -/

/-- A multi-line string without the line break right after its opening. -/
def multiline? (quote : Char) (cs : List Char) : Option (List Char × List Char) :=
  lines? quote (cs.length + 1) ((lineBreak? cs).getD cs)

/-- A string in one line. -/
def oneLine? : List Char → Option (String × List Char)
  | '"' :: r => (basic? (r.length + 1) r).map fun (s, r) => (String.ofList s, r)
  | '\'' :: r => (literal? r).map fun (s, r) => (String.ofList s, r)
  | _ => none

/-- A string of any form. -/
def string? (cs : List Char) : Option (String × List Char) :=
  let text := fun (s, r) => (String.ofList s, r)
  match cs with
  | '"' :: '"' :: '"' :: r => (multiline? '"' r).map text
  | '\'' :: '\'' :: '\'' :: r => (multiline? '\'' r).map text
  | cs => oneLine? cs

end TaskFleet.Toml
