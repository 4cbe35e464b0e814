/-
  TaskFleet.LocalCommand.Shell.Format — formats, which lay out their arguments.

  A format is used again and again until it has taken all arguments. A field that finds no
  argument left shows nothing, or zero. An argument that should be a number and is none
  counts as the number at its front, and the format fails.
-/

import TaskFleet.LocalCommand.Shell.Escape

namespace TaskFleet.Shell

/-- How a field is laid out. -/
structure Field where
  flags : List Char
  width : Nat
  precision : Option Nat
  conversion : Char
  deriving DecidableEq, Repr

/-- What has been laid out so far. -/
structure Layout where
  bytes : Bytes := []
  complaints : List String := []
  /-- The arguments that are left. -/
  args : List String := []
  /-- Whether a field has taken an argument. -/
  took : Bool := false
  /-- Whether output ends here. -/
  done : Bool := false
  deriving DecidableEq, Repr

/-! ## Numbers -/

/-- The value of a digit in bases up to sixteen. -/
def digitIn? (base : Nat) (c : Char) : Option Nat :=
  let d := match Text.digit? c with
    | some d => some d
    | none => if 'a' ≤ c.toLower ∧ c.toLower ≤ 'f' then some (c.toLower.toNat - 87) else none
  d.filter (· < base)

/-- The number at the front in a base, and what follows it. -/
def magnitude (base : Nat) (cs : List Char) : Nat × List Char :=
  let isDigit (c : Char) := (digitIn? base c).isSome
  (((cs.takeWhile isDigit).filterMap (digitIn? base)).foldl (fun n d => base * n + d) 0, cs.dropWhile isDigit)

/-- The number at the front of a text, and what follows it: with a leading zero it is
    octal, with `0x` hexadecimal. -/
def leadingInt (cs : List Char) : Int × List Char :=
  let cs := cs.dropWhile (· = ' ')
  let (negative, digits) := match cs with
    | '-' :: r => (true, r)
    | '+' :: r => (false, r)
    | r => (false, r)
  let (n, r) := match digits with
    | '0' :: 'x' :: r => magnitude 16 r
    | '0' :: r => magnitude 8 r
    | r => magnitude 10 r
  if (digits.head?.bind Text.digit?).isNone then (0, cs) else (if negative then -(n : Int) else n, r)

/-- The number that an argument writes, and what is wrong with it. -/
def number (arg : String) : Int × List String :=
  let (n, r) := leadingInt arg.toList
  if r.isEmpty then (n, [])
  else if r = arg.toList then (n, [s!"printf: {arg}: expected numeric value"])
  else (n, [s!"printf: {arg}: not completely converted"])

/-! ## Fields -/

/-- Bytes with padding before or behind them. -/
def Field.padded (f : Field) (bytes : Bytes) : Bytes :=
  let padding := List.replicate (f.width - bytes.length) (32 : UInt8)
  if f.flags.contains '-' then bytes ++ padding else padding ++ bytes

/-- A number with its sign and at least as many digits as the precision asks for. -/
def Field.numeral (f : Field) (sign digits : String) : Bytes :=
  let fill := List.replicate (f.precision.getD 1 - digits.length) '0'
  let digits := String.ofList fill ++ digits
  if f.flags.contains '0' ∧ !f.flags.contains '-' ∧ f.precision.isNone then
    utf8 (sign ++ String.ofList (List.replicate (f.width - sign.length - digits.length) '0') ++ digits)
  else f.padded (utf8 (sign ++ digits))

/-- The unsigned digits of a number in a base; a negative one counts from the end of the
    64-bit numbers. -/
def unsignedDigits (base : Nat) (n : Int) : String :=
  String.ofList (Nat.toDigits base (n.emod (UInt64.size : Int)).toNat)

/-- Lays an argument out in a field; none if there is no such conversion. -/
def Field.layOut? (f : Field) (arg : String) : Option (Bytes × List String × Bool) :=
  let (n, complaints) := number arg
  let text (bytes : Bytes) := f.padded (bytes.take (f.precision.getD bytes.length))
  let unsigned (base : Nat) := some (f.numeral "" (unsignedDigits base n), complaints, false)
  match f.conversion with
  | 's' => some (text (utf8 arg), [], false)
  | 'b' =>
    let (bytes, done) := argument arg
    some (text bytes, [], done)
  | 'c' => some (f.padded [(utf8 arg).headD 0], [], false)
  | 'd' | 'i' =>
    let sign := if n < 0 then "-" else if f.flags.contains '+' then "+" else if f.flags.contains ' ' then " " else ""
    some (f.numeral sign (toString n.natAbs), complaints, false)
  | 'u' => unsigned 10
  | 'o' => unsigned 8
  | 'x' => unsigned 16
  | 'X' =>
    some (f.numeral "" (String.ofList ((unsignedDigits 16 n).toList.map Char.toUpper)), complaints, false)
  | _ => none

/-- The field after a percent sign. -/
def field? (cs : List Char) : Option (Field × List Char) :=
  let isFlag (c : Char) := ['-', '+', ' ', '#', '0'].contains c
  let (width, r) := magnitude 10 (cs.dropWhile isFlag)
  let (precision, r) := match r with
    | '.' :: r =>
      let (n, r) := magnitude 10 r
      (some n, r)
    | r => (none, r)
  match r with
  | c :: r => some (⟨cs.takeWhile isFlag, width, precision, c⟩, r)
  | [] => none

/-- Uses a format once. -/
def formatOnce : (fuel : Nat) → List Char → Layout → Layout
  | 0, _, l => l
  | _, [], l => l
  | fuel + 1, '%' :: '%' :: r, l => formatOnce fuel r { l with bytes := l.bytes ++ [37] }
  | fuel + 1, '%' :: r, l =>
    match field? r with
    | none => { l with complaints := l.complaints ++ ["printf: %: invalid directive"], done := true }
    | some (f, r) =>
      match f.layOut? (l.args.headD "") with
      | none =>
        { l with complaints := l.complaints ++ ["printf: %" ++ String.singleton f.conversion ++ ": invalid directive"],
                 done := true }
      | some (bytes, complaints, done) =>
        let l := { l with bytes := l.bytes ++ bytes, complaints := l.complaints ++ complaints, args := l.args.tail,
                          took := true, done }
        if done then l else formatOnce fuel r l
  | fuel + 1, '\\' :: r, l =>
    let (b, r) := (escape? r).getD (92, r)
    formatOnce fuel r { l with bytes := l.bytes ++ [b] }
  | fuel + 1, c :: r, l => formatOnce fuel r { l with bytes := l.bytes ++ utf8 (String.singleton c) }

/-- Uses a format once, and again while arguments are left that it takes. -/
def formatAll (format : String) : (fuel : Nat) → Layout → Layout
  | 0, l => l
  | fuel + 1, l =>
    let l := formatOnce (format.length + 1) format.toList { l with took := false }
    if l.took ∧ !l.args.isEmpty ∧ !l.done then formatAll format fuel l else l

end TaskFleet.Shell
