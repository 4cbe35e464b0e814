/-
  TaskFleet.Datum.Decode — reading typed values out of a tree.

  Reading is strict: a missing field that has no default, a field written twice, a name that
  is not a case of its type, a number outside its range, a decimal number where a whole one
  belongs and a null that is not optional are all refused. Unknown fields are ignored.
  A record may also be written as the list of its fields' values, in order, and a case as a
  record with that case as its one key; how far that goes differs by `Style`.
-/

import TaskFleet.Datum.Basic
import TaskFleet.Named

namespace TaskFleet.Datum

/-- Where two text formats differ in what they let through. -/
structure Style where
  /-- Whether a record written as a list may have more elements than fields. -/
  allowsSurplus : Bool
  /-- What stands for "nothing more to say" after the name of a case. -/
  isUnit : Datum → Bool

/-- A reader of values of one type. -/
abbrev Decoder (α : Type) := Style → Datum → Option α

/-! ## Plain values -/

/-- A whole number in a range that starts at zero. -/
def natBelow (bound : Nat) : Decoder Nat
  | _, .whole n => if 0 ≤ n ∧ n < bound then some n.toNat else none
  | _, _ => none

def word : Decoder UInt64 := fun s d => (natBelow UInt64.size s d).map UInt64.ofNat

def word32 : Decoder UInt32 := fun s d => (natBelow UInt32.size s d).map UInt32.ofNat

def byte : Decoder UInt8 := fun s d => (natBelow UInt8.size s d).map UInt8.ofNat

/-- A double; a whole number counts as one. -/
def double : Decoder Float
  | _, .real x => x
  | _, .whole n => some (Float.ofInt n)
  | _, _ => none

def flag : Decoder Bool
  | _, .bool b => some b
  | _, _ => none

def string : Decoder String
  | _, .text s => s
  | _, _ => none

/-- A value that may be absent, written as null. -/
def nullable {α : Type} (read : Decoder α) : Decoder (Option α)
  | _, .null => some none
  | s, d => (read s d).map some

def listOf {α : Type} (read : Decoder α) : Decoder (List α)
  | s, .list items => items.mapM (read s)
  | _, _ => none

/-- A case by its name, alone or as the one key of a record. -/
def case {α : Type} [Named α] : Decoder α
  | _, .text s => s.bind Named.ofName?
  | s, .record [(k, d)] => if s.isUnit d then k.bind Named.ofName? else none
  | _, _ => none

/-! ## Records -/

/-- The fields of a record as it was written, by name. -/
abbrev Fields := String → Option Datum

/-- How often a key occurs. -/
def keyCount (fields : List (Option String × Datum)) (name : String) : Nat :=
  fields.countP fun p => p.1 == some name

/-- The first value under a key. -/
def keyValue? (fields : List (Option String × Datum)) (name : String) : Option Datum :=
  (fields.find? fun p => p.1 == some name).map (·.2)

/-- The fields of a record that knows these names. A date counts as a record with none of
    them. -/
def fields? (names : List String) : Decoder Fields
  | _, .record fields =>
    if fields.all (·.1.isSome) ∧ names.all (keyCount fields · ≤ 1) then some (keyValue? fields) else none
  | s, .list items =>
    if items.length ≤ names.length ∨ s.allowsSurplus then
      some fun name => (names.zip items).lookup name
    else none
  | _, .moment => some fun _ => none
  | _, _ => none

/-- A field that must be there. -/
def required {α : Type} (read : Decoder α) (s : Style) (fields : Fields) (name : String) : Option α :=
  (fields name).bind (read s)

/-- A field with a default. -/
def defaulted {α : Type} (read : Decoder α) (default : α) (s : Style) (fields : Fields) (name : String) :
    Option α :=
  match fields name with
  | none => some default
  | some d => read s d

/-- A field that may be absent or null. -/
def optional {α : Type} (read : Decoder α) : Style → Fields → String → Option (Option α) :=
  defaulted (nullable read) none

end TaskFleet.Datum
