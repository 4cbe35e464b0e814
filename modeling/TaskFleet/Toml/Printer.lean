/-
  TaskFleet.Toml.Printer — writes a tree of records as a TOML text.

  A table's plain values come first, one per line; then come its tables, each under a header
  with a blank line before it. A table that holds nothing but tables has no header of its
  own. Lists of two or more values take one line per value. What is null is left out. A whole
  number that does not fit 64 bits with a sign cannot be written.
-/

import TaskFleet.Datum.Basic
import TaskFleet.Decimal.Shortest
import TaskFleet.Toml.Quoted
import TaskFleet.Toml.Reader

namespace TaskFleet.Toml

/-- A key, in quotes unless it is a word. -/
def keyText (key : String) : String :=
  if key.toList.all isBare && key != "" then key else String.ofList (Form.write ⟨'"', false⟩ key.toList)

/-- A list of values. -/
def listText (items : List String) : String :=
  match items with
  | [] => "[]"
  | [item] => "[" ++ item ++ "]"
  | items => "[" ++ String.join (items.map fun item => "\n    " ++ item ++ ",") ++ "\n]"

mutual

/-- A value on the right of a key. -/
def valueText : Datum → String
  | .null | .moment => ""
  | .bool b => if b then "true" else "false"
  | .whole n => toString n
  | .real x => Decimal.text (x.getD 0)
  | .text s => quoted (s.getD "")
  | .list items => listText (valueTexts items)
  | .record fields => "\x7b " ++ ", ".intercalate (pairTexts fields) ++ " \x7d"

def valueTexts : List Datum → List String
  | [] => []
  | d :: ds => valueText d :: valueTexts ds

def pairTexts : List (Option String × Datum) → List String
  | [] => []
  | (key, d) :: fs => (keyText (key.getD "") ++ " = " ++ valueText d) :: pairTexts fs

end

/-- Whether a value is a list of tables. -/
def isTables : Datum → Bool
  | .list items => !items.isEmpty && items.all fun
    | .record _ => true
    | _ => false
  | _ => false

/-- Whether a value is written under a header of its own. -/
def isNested : Datum → Bool
  | .record _ => true
  | d => isTables d

/-- Whether a field is written at all. -/
def isPresent : Option String × Datum → Bool
  | (_, .null) => false
  | _ => true

/-- The plain values of a table, one per line. -/
def plainLines (fields : List (Option String × Datum)) : String :=
  String.join <| (fields.filter fun f => isPresent f && !isNested f.2).map fun f =>
    keyText (f.1.getD "") ++ " = " ++ valueText f.2 ++ "\n"

/-- A table's own part of the text: its header and its plain values, if it has any. -/
def tablePart (opening closing path : String) (always : Bool) (fields : List (Option String × Datum)) :
    List String :=
  let lines := plainLines fields
  if always || lines != "" || !fields.any isPresent then [opening ++ path ++ closing ++ "\n" ++ lines] else []

/-- The path of a table inside another one. -/
def pathText (outer key : String) : String := if outer = "" then keyText key else outer ++ "." ++ keyText key

mutual

/-- The parts of the tables under the keys of a table. -/
def fieldParts (outer : String) : List (Option String × Datum) → List String
  | [] => []
  | (key, d) :: rest => nestedParts (pathText outer (key.getD "")) d ++ fieldParts outer rest

/-- The parts that a value makes by itself. -/
def nestedParts (path : String) : Datum → List String
  | .record fields => tablePart "[" "]" path false fields ++ fieldParts path fields
  | .list items => if isTables (.list items) then elementParts path items else []
  | _ => []

/-- The parts of the tables of an array. -/
def elementParts (path : String) : List Datum → List String
  | [] => []
  | .record fields :: rest =>
    tablePart "[[" "]]" path true fields ++ fieldParts path fields ++ elementParts path rest
  | _ :: rest => elementParts path rest

end

/-- A record as a text. -/
def document : Datum → String
  | .record fields =>
    let lines := plainLines fields
    "\n".intercalate ((if lines = "" then [] else [lines]) ++ fieldParts "" fields)
  | d => valueText d

mutual

/-- Whether every whole number in a tree fits 64 bits with a sign. -/
def fits : Datum → Bool
  | .whole n => (inRange? n).isSome
  | .list items => fitsAll items
  | .record fields => fitsFields fields
  | _ => true

def fitsAll : List Datum → Bool
  | [] => true
  | d :: ds => fits d && fitsAll ds

def fitsFields : List (Option String × Datum) → Bool
  | [] => true
  | (_, d) :: rest => fits d && fitsFields rest

end

/-- A record as a text; a number too large for one is an error. -/
def document? (d : Datum) : Option String := if fits d then some (document d) else none

end TaskFleet.Toml
