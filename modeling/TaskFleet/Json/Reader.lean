/-
  TaskFleet.Json.Reader — reads a JSON text into a tree.

  The whole text must be one value with blanks around it. Control characters in strings,
  leading zeros, trailing commas and half literals are refused. A string that names half of
  a surrogate pair reads as a text nobody can use.
-/

import TaskFleet.Json.Number
import TaskFleet.Datum.Decode

namespace TaskFleet.Json

/-- Without the blanks at the front. -/
def skipBlanks : List Char → List Char
  | [] => []
  | c :: r => if c = ' ' ∨ c = '\t' ∨ c = '\n' ∨ c = '\r' then skipBlanks r else c :: r

/-- The value of a hexadecimal digit. -/
def hexDigit? (c : Char) : Option Nat :=
  if '0' ≤ c ∧ c ≤ '9' then some (c.toNat - 48)
  else if 'a' ≤ c ∧ c ≤ 'f' then some (c.toNat - 87)
  else if 'A' ≤ c ∧ c ≤ 'F' then some (c.toNat - 55)
  else none

/-- The UTF-16 unit that four hexadecimal digits name. -/
def unit? : List Char → Option (Nat × List Char)
  | a :: b :: c :: d :: r => do
    let a ← hexDigit? a
    let b ← hexDigit? b
    let c ← hexDigit? c
    let d ← hexDigit? d
    return (((a * 16 + b) * 16 + c) * 16 + d, r)
  | _ => none

/-- One element of a string: a character, or a UTF-16 unit that stands for half of one. -/
inductive Element where
  | char (c : Char)
  | half (unit : Nat)

/-- An escape after its backslash. -/
def escape? : List Char → Option (Element × List Char)
  | 'u' :: r => do
    let (unit, r) ← unit? r
    if 0xD800 ≤ unit ∧ unit < 0xE000 then
      return (.half unit, r)
    return (.char (Char.ofNat unit), r)
  | c :: r =>
    match c with
    | '"' | '\\' | '/' => some (.char c, r)
    | 'b' => some (.char '\x08', r)
    | 'f' => some (.char '\x0c', r)
    | 'n' => some (.char '\n', r)
    | 'r' => some (.char '\r', r)
    | 't' => some (.char '\t', r)
    | _ => none
  | [] => none

/-- The elements of a string after its opening quote, and what follows the closing one. -/
def elements? : (fuel : Nat) → List Char → Option (List Element × List Char)
  | 0, _ => none
  | fuel + 1, cs =>
    match cs with
    | [] => none
    | '"' :: r => some ([], r)
    | '\\' :: r => do
      let (e, r) ← escape? r
      let (es, r) ← elements? fuel r
      return (e :: es, r)
    | c :: r => do
      if c.toNat < 0x20 then none
      let (es, r) ← elements? fuel r
      return (.char c :: es, r)

/-- Joins the halves of surrogate pairs; none if a half has no partner. -/
def joinHalves : List Element → Option (List Char)
  | [] => some []
  | .char c :: r => (joinHalves r).map (c :: ·)
  | .half hi :: .half lo :: r =>
    if hi < 0xDC00 ∧ 0xDC00 ≤ lo then
      (joinHalves r).map (Char.ofNat (0x10000 + (hi - 0xD800) * 0x400 + (lo - 0xDC00)) :: ·)
    else none
  | .half _ :: _ => none

/-- A string after its opening quote. -/
def string? (cs : List Char) : Option (Option String × List Char) :=
  (elements? (cs.length + 1) cs).map fun (es, r) => ((joinHalves es).map String.ofList, r)

/-- The word at the front, taken off. -/
def literal? (word cs : List Char) : Option (List Char) :=
  if word.isPrefixOf cs then some (cs.drop word.length) else none

mutual

/-- The value at the front of a text. -/
def value? : (fuel : Nat) → List Char → Option (Datum × List Char)
  | 0, _ => none
  | fuel + 1, cs =>
    match skipBlanks cs with
    | '"' :: r => (string? r).map fun (s, r) => (.text s, r)
    | '[' :: r =>
      match skipBlanks r with
      | ']' :: r => some (.list [], r)
      | r => (items? fuel r).map fun (ds, r) => (.list ds, r)
    | '\x7b' :: r =>
      match skipBlanks r with
      | '\x7d' :: r => some (.record [], r)
      | r => (members? fuel r).map fun (fs, r) => (.record fs, r)
    | 'n' :: r => (literal? ['u', 'l', 'l'] r).map fun r => (.null, r)
    | 't' :: r => (literal? ['r', 'u', 'e'] r).map fun r => (.bool true, r)
    | 'f' :: r => (literal? ['a', 'l', 's', 'e'] r).map fun r => (.bool false, r)
    | r => (numeral? r).map fun (n, r) => (n.toDatum, r)

/-- The elements of a list up to its bracket. -/
def items? : (fuel : Nat) → List Char → Option (List Datum × List Char)
  | 0, _ => none
  | fuel + 1, cs => do
    let (d, r) ← value? fuel cs
    match skipBlanks r with
    | ']' :: r => return ([d], r)
    | ',' :: r =>
      let (ds, r) ← items? fuel r
      return (d :: ds, r)
    | _ => none

/-- The fields of a record up to its brace. -/
def members? : (fuel : Nat) → List Char → Option (List (Option String × Datum) × List Char)
  | 0, _ => none
  | fuel + 1, cs =>
    match skipBlanks cs with
    | '"' :: r => do
      let (k, r) ← string? r
      match skipBlanks r with
      | ':' :: r =>
        let (d, r) ← value? fuel r
        match skipBlanks r with
        | '\x7d' :: r => return ([(k, d)], r)
        | ',' :: r =>
          let (fs, r) ← members? fuel r
          return ((k, d) :: fs, r)
        | _ => none
      | _ => none
    | _ => none

end

/-- The one value that a text writes. -/
def parse? (text : String) : Option Datum :=
  let cs := text.toList
  match value? (2 * cs.length + 2) cs with
  | some (d, r) => if (skipBlanks r).isEmpty then some d else none
  | none => none

/-- What JSON lets through: a case as a record holds null, a list of fields has no surplus. -/
def style : Datum.Style where
  allowsSurplus := false
  isUnit | .null => true | _ => false

/-- Reads a value of some type from a JSON text. -/
def decode? {α : Type} (read : Datum.Decoder α) (text : String) : Option α :=
  (parse? text).bind (read style)

end TaskFleet.Json
