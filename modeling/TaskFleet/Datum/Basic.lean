/-
  TaskFleet.Datum.Basic — the tree that a JSON or TOML text stands for.

  A tree keeps what a reader may have to refuse: a record's fields in the order and number
  in which they were written, whole numbers apart from decimal ones, and a text or a number
  that no field can hold (`none`), which does no harm under a key that nobody reads.
-/

namespace TaskFleet

/-- A tree of plain data. -/
inductive Datum where
  | null
  | bool (b : Bool)
  /-- A number written without point or exponent. -/
  | whole (n : Int)
  /-- A number written with one; `none` if it is beyond every double. -/
  | real (x : Option Float)
  /-- A text; `none` if an escape in it names half of a surrogate pair. -/
  | text (s : Option String)
  | list (items : List Datum)
  | record (fields : List (Option String × Datum))
  /-- A date or time, which no field of this program holds. -/
  | moment
  deriving Inhabited

namespace Datum

def ofText (s : String) : Datum := .text (some s)

def ofWord (n : UInt64) : Datum := .whole n.toNat

def ofReal (x : Float) : Datum := .real (some x)

/-- A record with these fields, in this order. -/
def ofFields (fields : List (String × Datum)) : Datum := .record (fields.map fun p => (some p.1, p.2))

/-- An absent value is written as null. -/
def ofOption {α : Type} (write : α → Datum) : Option α → Datum
  | none => .null
  | some a => write a

end Datum

end TaskFleet
