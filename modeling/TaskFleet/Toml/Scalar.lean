/-
  TaskFleet.Toml.Scalar — numbers, dates and truth values in TOML texts.

  A whole number has no leading zeros, may be written in base 16, 8 or 2, and fits 64 bits
  with a sign. A decimal number reads as the nearest double, and is refused if that is
  infinity. Single underscores may stand between digits.
-/

import TaskFleet.Datum.Basic
import TaskFleet.Decimal.Shortest
import TaskFleet.Json.Reader
import TaskFleet.Text.Digits

namespace TaskFleet.Toml

open Text

/-! ## Digits -/

/-- The value of a digit in some base. -/
def digitIn? (base : Nat) (c : Char) : Option Nat := (Json.hexDigit? c).filter (· < base)

/-- The digits behind a first one; an underscore must be followed by a digit. -/
def moreDigits? (base : Nat) : List Char → Option (List Nat × List Char)
  | '_' :: c :: r => do
    let d ← digitIn? base c
    let (ds, r) ← moreDigits? base r
    return (d :: ds, r)
  | ['_'] => none
  | c :: r =>
    match digitIn? base c with
    | some d => (moreDigits? base r).map fun (ds, r) => (d :: ds, r)
    | none => some ([], c :: r)
  | [] => some ([], [])

/-- Digits, at least one. -/
def digits? (base : Nat) : List Char → Option (List Nat × List Char)
  | [] => none
  | c :: r => do
    let d ← digitIn? base c
    let (ds, r) ← moreDigits? base r
    return (d :: ds, r)

def ofDigitsIn (base : Nat) (ds : List Nat) : Nat := ds.foldl (fun n d => base * n + d) 0

/-- The sign at the front: whether it is a minus. -/
def sign : List Char → Bool × List Char
  | '-' :: r => (true, r)
  | '+' :: r => (false, r)
  | cs => (false, cs)

/-- Decimal digits without leading zeros. -/
def wholeDigits? : List Char → Option (List Nat × List Char)
  | '0' :: r => some ([0], r)
  | cs => digits? 10 cs

/-! ## Whole numbers -/

/-- A number of 64 bits with a sign. -/
def inRange? (n : Int) : Option Datum := if Int64.minValue.toInt ≤ n ∧ n ≤ Int64.maxValue.toInt then some (.whole n) else none

/-- A whole number in a base that its prefix names. -/
def based? (base : Nat) (cs : List Char) : Option (Datum × List Char) := do
  let (ds, r) ← digits? base cs
  return (← inRange? (ofDigitsIn base ds), r)

def whole? : List Char → Option (Datum × List Char)
  | '0' :: 'x' :: r => based? 16 r
  | '0' :: 'o' :: r => based? 8 r
  | '0' :: 'b' :: r => based? 2 r
  | cs => do
    let (negative, cs) := sign cs
    let (ds, r) ← wholeDigits? cs
    let n := ofDigits ds
    return (← inRange? (if negative then -n else n), r)

/-! ## Decimal numbers -/

/-- An exponent after its letter. -/
def exponent? (cs : List Char) : Option (Int × List Char) := do
  let (negative, cs) := sign cs
  let (ds, r) ← digits? 10 cs
  let n : Int := ofDigits ds
  return (if negative then -n else n, r)

/-- An exponent, if there is one. -/
def optionalExponent? : List Char → Option (Int × List Char)
  | 'e' :: r | 'E' :: r => exponent? r
  | r => some (0, r)

/-- The digits behind the point and the exponent; one of the two must be there. -/
def fraction? : List Char → Option ((List Nat × Int) × List Char)
  | '.' :: r => do
    let (ds, r) ← digits? 10 r
    let (e, r) ← optionalExponent? r
    return ((ds, e), r)
  | 'e' :: r | 'E' :: r => (exponent? r).map fun (e, r) => (([], e), r)
  | _ => none

/-- A decimal number with its sign; below every double it reads as minus infinity. -/
def decimal? (cs : List Char) : Option (Datum × List Char) := do
  let (negative, cs) := sign cs
  let (ds, r) ← wholeDigits? cs
  let ((fs, e), r) ← fraction? r
  let x := Decimal.toFloat (ofDigits (ds ++ fs)) (e - fs.length)
  if x.isInf ∧ !negative then none
  return (.ofReal (if negative then -x else x), r)

/-- Infinity or the value that is no number. -/
def special? (cs : List Char) : Option (Datum × List Char) :=
  let (negative, cs) := sign cs
  match cs with
  | 'i' :: 'n' :: 'f' :: r => some (.ofReal (if negative then -1 / 0 else 1 / 0), r)
  | 'n' :: 'a' :: 'n' :: r => some (.ofReal (0 / 0), r)
  | _ => none

/-! ## Dates and times -/

/-- A number of so many decimal digits in a range. -/
def field? (width low high : Nat) (cs : List Char) : Option (Nat × List Char) := do
  let ds ← (cs.take width).mapM digit?
  let n := ofDigits ds
  if ds.length = width ∧ low ≤ n ∧ n ≤ high then some (n, cs.drop width) else none

/-- A character at the front, taken off. -/
def mark? (c : Char) : List Char → Option (List Char)
  | c' :: r => if c' = c then some r else none
  | [] => none

/-- The days of a month. -/
def daysIn (year month : Nat) : Nat :=
  if month = 2 then (if year % 4 = 0 ∧ (year % 100 ≠ 0 ∨ year % 400 = 0) then 29 else 28)
  else if month = 4 ∨ month = 6 ∨ month = 9 ∨ month = 11 then 30
  else 31

/-- A calendar date, taken off. -/
def date? (cs : List Char) : Option (List Char) := do
  let (year, r) ← field? 4 0 9999 cs
  let (month, r) ← field? 2 1 12 (← mark? '-' r)
  let (_, r) ← field? 2 1 (daysIn year month) (← mark? '-' r)
  return r

/-- A fraction of a second, taken off. -/
def secondFraction? : List Char → Option (List Char)
  | '.' :: c :: r => if (digit? c).isSome then some (r.dropWhile (digit? · |>.isSome)) else none
  | ['.'] => none
  | r => some r

/-- A time of day, taken off; a minute may have a 61st second. -/
def time? (cs : List Char) : Option (List Char) := do
  let (_, r) ← field? 2 0 23 cs
  let (_, r) ← field? 2 0 59 (← mark? ':' r)
  let (_, r) ← field? 2 0 60 (← mark? ':' r)
  secondFraction? r

/-- A distance from UTC, taken off if there is one. -/
def offset? : List Char → Option (List Char)
  | 'Z' :: r | 'z' :: r => some r
  | '+' :: r | '-' :: r => do
    let (_, r) ← field? 2 0 23 r
    let (_, r) ← field? 2 0 59 (← mark? ':' r)
    return r
  | r => some r

/-- A date with or without a time, or a time alone, taken off. -/
def moment? (cs : List Char) : Option (List Char) :=
  match date? cs with
  | none => time? cs
  | some r =>
    match r with
    | 'T' :: t | 't' :: t | ' ' :: t =>
      match time? t with
      | some r => offset? r
      | none => some r
    | r => some r

/-! ## Any of them -/

/-- A number, a date, a time or a truth value. -/
def scalarValue? (cs : List Char) : Option (Datum × List Char) :=
  match cs with
  | 't' :: 'r' :: 'u' :: 'e' :: r => some (.bool true, r)
  | 'f' :: 'a' :: 'l' :: 's' :: 'e' :: r => some (.bool false, r)
  | cs => (moment? cs).map (Datum.moment, ·) <|> decimal? cs <|> special? cs <|> whole? cs

end TaskFleet.Toml
