/-
  TaskFleet.Toml.Tree — the tables that a TOML text builds up, header by header and key by
  key.

  A table comes from a header, from a dotted key, or only because something below it was
  named. No key may be given twice. A header defines a table once, and one that was implied
  so far counts as undefined; a dotted key reaches into tables that dotted keys made, or
  through others that have no header, but never adds to a table with a header from outside.
  A header on the way through an array of tables means its last table.
-/

import TaskFleet.Datum.Basic

namespace TaskFleet.Toml

/-- Why a table is there. -/
inductive Origin where
  | header
  | dottedKey
  /-- Something below it was named by a header. -/
  | implied
  deriving DecidableEq, Repr

/-- What stands under a key. -/
inductive Node where
  | value (d : Datum)
  | table (origin : Origin) (rows : List (String × Node))
  /-- An array of tables; each has a header. -/
  | tables (items : List (List (String × Node)))

/-- The keys of a table with what stands under them. -/
abbrev Rows := List (String × Node)

namespace Rows

/-- Puts a node under a key, in place of the one there. -/
def put (rows : Rows) (key : String) (n : Node) : Rows :=
  if (rows.lookup key).isSome then rows.map fun p => if p.1 = key then (key, n) else p else rows ++ [(key, n)]

/-- A change of the last one of some tables. -/
def changeLast (change : Rows → Option Rows) (items : List Rows) : Option (List Rows) := do
  let last ← items.getLast?
  return items.dropLast ++ [← change last]

/-- Changes the table that a header's path leads to. -/
def changeAt : (path : List String) → (change : Rows → Option Rows) → Rows → Option Rows
  | [], change, rows => change rows
  | key :: path, change, rows =>
    match rows.lookup key with
    | none => (changeAt path change []).map fun sub => rows.put key (.table .implied sub)
    | some (.value _) => none
    | some (.table origin sub) => (changeAt path change sub).map fun sub => rows.put key (.table origin sub)
    | some (.tables items) =>
      (changeLast (changeAt path change) items).map fun items => rows.put key (.tables items)

/-- Defines a table that has no header yet. -/
def defineTable (key : String) (rows : Rows) : Option Rows :=
  match rows.lookup key with
  | none => some (rows.put key (.table .header []))
  | some (.table .implied sub) => some (rows.put key (.table .header sub))
  | _ => none

/-- Adds a table to an array of tables. -/
def addTable (key : String) (rows : Rows) : Option Rows :=
  match rows.lookup key with
  | none => some (rows.put key (.tables [[]]))
  | some (.tables items) => some (rows.put key (.tables (items ++ [[]])))
  | _ => none

/-- Gives a value to a key that has none. -/
def setNew (key : String) (d : Datum) (rows : Rows) : Option Rows :=
  match rows.lookup key with
  | none => some (rows.put key (.value d))
  | some _ => none

/-- Gives a value to a dotted key: the path to its table, and its last part. -/
def setDotted (key : String) (d : Datum) : (path : List String) → Rows → Option Rows
  | [], rows => setNew key d rows
  | part :: path, rows =>
    match rows.lookup part with
    | none => (setDotted key d path []).map fun sub => rows.put part (.table .dottedKey sub)
    | some (.value _) => none
    | some (.table origin sub) =>
      if origin = .header ∨ (path.isEmpty ∧ origin ≠ .dottedKey) then none
      else (setDotted key d path sub).map fun sub => rows.put part (.table origin sub)
    | some (.tables items) =>
      if path.isEmpty then none
      else (changeLast (setDotted key d path) items).map fun items => rows.put part (.tables items)

end Rows

mutual

/-- The tree without the history of its tables. -/
def Node.toDatum : Node → Datum
  | .value d => d
  | .table _ rows => .record (Rows.toFields rows)
  | .tables items => .list (Rows.toRecords items)

def Rows.toFields : List (String × Node) → List (Option String × Datum)
  | [] => []
  | (key, n) :: rest => (some key, n.toDatum) :: Rows.toFields rest

def Rows.toRecords : List (List (String × Node)) → List Datum
  | [] => []
  | rows :: rest => .record (Rows.toFields rows) :: Rows.toRecords rest

end

end TaskFleet.Toml
