/-
  TaskFleet.Decimal.Shortest — the shortest decimal number that reads back as a given double.

  A positive double `m · 2^q` is what every real number between its two midpoints reads as,
  the midpoints included if `m` is even. Among the grids of multiples of a power of ten the
  coarsest one with a point in there gives the fewest digits, and of two such points the
  nearer one is taken. All of it is exact arithmetic on whole numbers.
-/

namespace TaskFleet.Decimal

/-- A positive double `mantissa · 2^exponent`. -/
structure Binary where
  mantissa : Nat
  exponent : Int
  /-- Whether the next double below is half as far away as the next one above. -/
  isLopsided : Bool

namespace Binary

/-- The parts of a positive finite double, given its bits. -/
def ofBits (bits : Nat) : Binary :=
  let fraction := bits % 0x10000000000000
  let power : Nat := bits / 0x10000000000000 % 0x800
  if power = 0 then ⟨fraction, -1074, false⟩
  else ⟨0x10000000000000 + fraction, (power : Int) - 1075, fraction == 0 && 1 < power⟩

variable (b : Binary)

/-- Four times the mantissa of the lower midpoint. -/
def low : Nat := 4 * b.mantissa - (if b.isLopsided then 1 else 2)

/-- Four times the mantissa of the upper midpoint. -/
def high : Nat := 4 * b.mantissa + 2

/-- What a quarter of the last binary place and a point of the grid of `10^g` weigh, brought
    to whole numbers. -/
def weights (g : Int) : Nat × Nat :=
  let shift := b.exponent - 2
  (Nat.pow 2 shift.toNat * Nat.pow 10 (-g).toNat, Nat.pow 2 (-shift).toNat * Nat.pow 10 g.toNat)

/-- Whether the decimal number `n · 10^g` reads as this double. -/
def holds (g : Int) (n : Nat) : Bool :=
  let (quarter, point) := b.weights g
  let place := n * point
  if b.mantissa % 2 = 0 then b.low * quarter ≤ place && place ≤ b.high * quarter
  else b.low * quarter < place && place < b.high * quarter

/-- The point of the grid of `10^g` that reads as this double, the nearer one if there are
    two, looked for next to the double. -/
def pointOn? (g : Int) : Option Nat :=
  let (quarter, point) := b.weights g
  let value := 4 * b.mantissa * quarter
  let n := value / point
  match b.holds g n, b.holds g (n + 1) with
  | true, true => some (if 2 * (value % point) < point then n else n + 1)
  | true, false => some n
  | false, true => some (n + 1)
  | false, false => none

/-- The first hit on the grids from `10^g` down, so many of them. -/
def search : (grids : Nat) → (g : Int) → Option (Nat × Int)
  | 0, _ => none
  | grids + 1, g =>
    match b.pointOn? g with
    | some n => some (n, g)
    | none => search grids (g - 1)

/-- The coarsest grid that can hold a double. -/
def coarsest : Int := 309

/-- The shortest decimal number `n · 10^g` that reads as this double. -/
def shortest : Nat × Int := (b.search 1400 coarsest).getD (0, 0)

end Binary

/-- A number `n · 10^g` without an exponent, with at least one digit behind the point. -/
def positional (n : Nat) (g : Int) : List Char :=
  let digits := (toString n).toList
  if 0 ≤ g then digits ++ List.replicate g.toNat '0' ++ ['.', '0']
  else
    let places := (-g).toNat
    let padded := List.replicate (places + 1 - digits.length) '0' ++ digits
    padded.take (padded.length - places) ++ '.' :: padded.drop (padded.length - places)

/-- The text of a double, without an exponent. -/
def text (x : Float) : String :=
  if x.isNaN then "nan"
  else
    let sign := if x.toBits < 0x8000000000000000 then "" else "-"
    if x.isInf then sign ++ "inf"
    else if x == 0 then sign ++ "0.0"
    else
      let (n, g) := (Binary.ofBits x.toBits.toNat).shortest
      sign ++ String.ofList (positional n g)

/-- The double nearest to `n · 10^e`, beyond every double infinity. -/
def toFloat (n : Nat) (e : Int) : Float :=
  let magnitude := (toString n).length + e
  if n = 0 ∨ magnitude < -400 then 0
  else if 400 < magnitude then 1 / 0
  else Float.ofScientific n (e < 0) e.natAbs

end TaskFleet.Decimal
