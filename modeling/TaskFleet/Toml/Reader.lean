/-
  TaskFleet.Toml.Reader — reads a TOML text into a tree.

  A text is a sequence of lines: a header, a key with its value, or nothing, each with an
  optional comment. Values and keys nest less than eighty deep.
-/

import TaskFleet.Toml.Scalar
import TaskFleet.Toml.Text
import TaskFleet.Toml.Tree
import TaskFleet.Datum.Decode

namespace TaskFleet.Toml

/-- Without the blanks at the front. -/
def skipBlanks (cs : List Char) : List Char := cs.dropWhile fun c => c = ' ' || c = '\t'

/-- Without the comment at the front, if there is one. -/
def skipComment : List Char → List Char
  | '#' :: r => r.dropWhile isPlain
  | cs => cs

/-- The end of a line after blanks and a comment, taken off. -/
def endOfLine? (cs : List Char) : Option (List Char) :=
  match skipComment (skipBlanks cs) with
  | [] => some []
  | r => lineBreak? r

/-- Without the blanks, comments and line breaks at the front. -/
def skipGaps : (fuel : Nat) → List Char → List Char
  | 0, cs => cs
  | fuel + 1, cs =>
    let r := skipBlanks cs
    match lineBreak? (skipComment r) with
    | some r => skipGaps fuel r
    | none => r

/-! ## Keys -/

/-- How deep keys and values may nest. -/
def depthLimit : Nat := 80

def isBare (c : Char) : Bool := c.isAlphanum || c = '-' || c = '_'

/-- One part of a key: a word, or a string in one line. -/
def keyPart? (cs : List Char) : Option (String × List Char) :=
  match cs.takeWhile isBare with
  | [] => oneLine? cs
  | word => some (String.ofList word, cs.dropWhile isBare)

/-- The parts of a key with dots between them and blanks around them. -/
def keyParts? : (fuel : Nat) → List Char → Option (List String × List Char)
  | 0, _ => none
  | fuel + 1, cs => do
    let (part, r) ← keyPart? (skipBlanks cs)
    match skipBlanks r with
    | '.' :: r =>
      let (parts, r) ← keyParts? fuel r
      return (part :: parts, r)
    | r => return ([part], r)

/-- A key: the path to its table, and its last part. -/
def key? (cs : List Char) : Option ((List String × String) × List Char) := do
  let (parts, r) ← keyParts? (cs.length + 1) cs
  if depthLimit ≤ parts.length then none
  return ((parts.dropLast, ← parts.getLast?), r)

/-! ## Values -/

mutual

/-- The value at the front of a text, inside so many others. -/
def value? : (fuel : Nat) → (depth : Nat) → List Char → Option (Datum × List Char)
  | 0, _, _ => none
  | fuel + 1, depth, cs =>
    match cs with
    | '[' :: r => do
      if depthLimit ≤ depth + 1 then none
      let (items, r) ← items? fuel (depth + 1) r
      return (.list items, r)
    | '\x7b' :: r => do
      if depthLimit ≤ depth + 1 then none
      match skipBlanks r with
      | '\x7d' :: r => return (.record [], r)
      | r =>
        let (rows, r) ← members? fuel (depth + 1) [] r
        return (.record (Rows.toFields rows), r)
    | '"' :: _ | '\'' :: _ => (string? cs).map fun (s, r) => (.ofText s, r)
    | cs => scalarValue? cs

/-- The elements of a list up to its bracket, also over several lines and with a comma
    behind the last one. -/
def items? : (fuel : Nat) → (depth : Nat) → List Char → Option (List Datum × List Char)
  | 0, _, _ => none
  | fuel + 1, depth, cs =>
    match skipGaps fuel cs with
    | ']' :: r => some ([], r)
    | r => do
      let (d, r) ← value? fuel depth r
      match skipGaps fuel r with
      | ']' :: r => return ([d], r)
      | ',' :: r =>
        let (ds, r) ← items? fuel depth r
        return (d :: ds, r)
      | _ => none

/-- The keys of a table in one line up to its brace, added to those before. -/
def members? : (fuel : Nat) → (depth : Nat) → Rows → List Char → Option (Rows × List Char)
  | 0, _, _, _ => none
  | fuel + 1, depth, rows, cs => do
    let ((path, key), r) ← key? cs
    let r ← mark? '=' r
    let (d, r) ← value? fuel depth (skipBlanks r)
    let rows ← rows.setDotted key d path
    match skipBlanks r with
    | '\x7d' :: r => return (rows, r)
    | ',' :: r => members? fuel depth rows r
    | _ => none

end

/-! ## Lines -/

/-- What was read so far: the whole tree, and the path of the last header. -/
structure Draft where
  root : Rows := []
  current : List String := []

namespace Draft

/-- A table's header after its opening bracket. -/
def header? (t : Draft) (cs : List Char) : Option (Draft × List Char) := do
  let ((path, key), r) ← key? cs
  let r ← mark? ']' r
  return ({ root := ← t.root.changeAt path (Rows.defineTable key), current := path ++ [key] }, r)

/-- The header of a table in an array, after its opening brackets. -/
def arrayHeader? (t : Draft) (cs : List Char) : Option (Draft × List Char) := do
  let ((path, key), r) ← key? cs
  let r ← mark? ']' (← mark? ']' r)
  return ({ root := ← t.root.changeAt path (Rows.addTable key), current := path ++ [key] }, r)

/-- A key with its value. -/
def assignment? (t : Draft) (cs : List Char) : Option (Draft × List Char) := do
  let ((path, key), r) ← key? cs
  let r ← mark? '=' r
  let (d, r) ← value? (r.length + 1) 0 (skipBlanks r)
  return ({ t with root := ← t.root.changeAt t.current (Rows.setDotted key d path) }, r)

/-- A header or an assignment. -/
def statement? (t : Draft) : List Char → Option (Draft × List Char)
  | '[' :: '[' :: r => arrayHeader? t r
  | '[' :: r => header? t r
  | r => assignment? t r

/-- The lines of a text. -/
def lines? : (fuel : Nat) → Draft → List Char → Option Draft
  | 0, _, _ => none
  | fuel + 1, t, cs =>
    match skipComment (skipBlanks cs) with
    | [] => some t
    | r =>
      match lineBreak? r with
      | some r => lines? fuel t r
      | none => do
        let (t, r) ← statement? t (skipBlanks cs)
        lines? fuel t (← endOfLine? r)

end Draft

/-- The tree of a text, which may begin with a byte order mark. -/
def parse? (text : String) : Option Datum :=
  let cs := match text.toList with
    | '\ufeff' :: r => r
    | cs => cs
  (Draft.lines? (cs.length + 1) {} cs).map fun t => .record (Rows.toFields t.root)

/-- What TOML lets through: a list of fields may have a surplus, and a case as a table holds
    an empty list or table. -/
def style : Datum.Style where
  allowsSurplus := true
  isUnit
    | .list [] | .record [] => true
    | _ => false

/-- Reads a value of some type from a TOML text. -/
def decode? {α : Type} (read : Datum.Decoder α) (text : String) : Option α := (parse? text).bind (read style)

end TaskFleet.Toml
