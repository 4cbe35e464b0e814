/-
  TaskFleet.Json.Number — numbers in JSON texts.

  A number without point or exponent that fits 64 bits is whole. Any other number is a
  double: as many leading digits as fit 64 bits, converted once, then multiplied or divided
  by one power of ten. A number beyond every double has no value.
-/

import TaskFleet.Datum.Basic
import TaskFleet.Text.Digits

namespace TaskFleet.Json

open Text

/-- The parts of a number as it is written. -/
structure Numeral where
  negative : Bool
  /-- The digits before the point. -/
  whole : List Nat
  /-- The digits after the point, if there is one. -/
  fraction : Option (List Nat)
  /-- The exponent, if there is one. -/
  exponent : Option Int

/-- The decimal digits at the front, and the rest. -/
def takeDigits : List Char → List Nat × List Char
  | [] => ([], [])
  | c :: r =>
    match digit? c with
    | some d => let (ds, r') := takeDigits r; (d :: ds, r')
    | none => ([], c :: r)

/-- An exponent after its `e`: an optional sign and at least one digit. -/
def exponent? (cs : List Char) : Option (Int × List Char) :=
  let (negative, cs) :=
    match cs with
    | '+' :: r => (false, r)
    | '-' :: r => (true, r)
    | _ => (false, cs)
  match takeDigits cs with
  | ([], _) => none
  | (ds, r) => some (if negative then -ofDigits ds else ofDigits ds, r)

/-- The number at the front of a text, by JSON's grammar. -/
def numeral? (cs : List Char) : Option (Numeral × List Char) := do
  let (negative, cs) := match cs with
    | '-' :: r => (true, r)
    | _ => (false, cs)
  let (whole, cs) := takeDigits cs
  if whole.isEmpty ∨ (whole.head? = some 0 ∧ whole.length > 1) then none
  let (fraction, cs) ← match cs with
    | '.' :: r => match takeDigits r with
      | ([], _) => none
      | (ds, r) => some (some ds, r)
    | _ => some (none, cs)
  let (exponent, cs) ← match cs with
    | 'e' :: r | 'E' :: r => (exponent? r).map fun (e, r) => (some e, r)
    | _ => some (none, cs)
  return ({ negative, whole, fraction, exponent }, cs)

/-- The digits that fit 64 bits, as one number, and how many are left over. -/
def leadingDigits : (n : Nat) → List Nat → Nat × Nat
  | n, [] => (n, 0)
  | n, d :: ds => if 10 * n + d < UInt64.size then leadingDigits (10 * n + d) ds else (n, ds.length + 1)

/-- `x · 10^e`, in steps that a double can hold; none beyond every double. -/
def scale (x : Float) (e : Int) : Option Float :=
  if e.natAbs ≤ 308 then
    let power := Float.ofScientific 1 false e.natAbs
    if 0 ≤ e then
      let y := x * power
      if y.isInf then none else some y
    else some (x / power)
  else if x == 0 then some x
  else if 0 ≤ e then none
  else
    let x := x / Float.ofScientific 1 false 308
    let e := e + 308
    -- Beyond three steps every double has become zero.
    if e.natAbs ≤ 308 then some (x / Float.ofScientific 1 false e.natAbs)
    else
      let x := x / Float.ofScientific 1 false 308
      let e := e + 308
      if e.natAbs ≤ 308 then some (x / Float.ofScientific 1 false e.natAbs) else some 0

namespace Numeral

/-- The number as a double. -/
def real? (n : Numeral) : Option Float :=
  let (lead, dropped) := leadingDigits 0 n.whole
  let (significand, places) :=
    match n.fraction with
    | none => (lead, 0)
    | some ds =>
      let (s, surplus) := leadingDigits lead ds
      (s, ds.length - surplus)
  let written := n.exponent.getD 0
  let x :=
    -- An exponent beyond 32 bits settles the number whatever its digits.
    if Int32.maxValue.toInt < written then (if significand = 0 then some 0 else none)
    else if written ≤ Int32.minValue.toInt then some 0
    else scale (UInt64.ofNat significand).toFloat (dropped - places + written)
  x.map fun x => if n.negative then -x else x

/-- A number without point or exponent is whole if it fits 64 bits; minus zero does not. -/
def toDatum (n : Numeral) : Datum :=
  let magnitude := ofDigits n.whole
  if n.fraction.isNone ∧ n.exponent.isNone ∧ n.negative = false ∧ magnitude < UInt64.size then .whole magnitude
  else if n.fraction.isNone ∧ n.exponent.isNone ∧ n.negative ∧ 0 < magnitude ∧ -magnitude ≥ Int64.minValue.toInt then
    .whole (-magnitude)
  else .real n.real?

end Numeral

end TaskFleet.Json
