/-
  TaskFleet.LocalCommand.Shell.Escape — escapes, which stand for single bytes.

  An octal escape has up to three digits. Where a text is an argument, a zero may come
  before them, and the letter `c` ends all output.
-/

import TaskFleet.Text.Digits

namespace TaskFleet.Shell

abbrev Bytes := List UInt8

def utf8 (s : String) : Bytes := s.toUTF8.toList

def octalDigit? (c : Char) : Option Nat := (Text.digit? c).filter (· < 8)

/-- At most so many octal digits at the front, as a number. -/
def octal : (width : Nat) → (n : Nat) → List Char → Nat × List Char
  | 0, n, cs => (n, cs)
  | _, n, [] => (n, [])
  | width + 1, n, c :: r =>
    match octalDigit? c with
    | some d => octal width (8 * n + d) r
    | none => (n, c :: r)

/-- The byte that a letter after a backslash stands for. -/
def escapeByte? : Char → Option UInt8
  | 'a' => some 7
  | 'b' => some 8
  | 't' => some 9
  | 'n' => some 10
  | 'v' => some 11
  | 'f' => some 12
  | 'e' => some 27
  | 'r' => some 13
  | '\\' => some 92
  | _ => none

/-- A byte written as an escape, after its backslash. -/
def escape? : List Char → Option (UInt8 × List Char)
  | [] => none
  | c :: r =>
    match escapeByte? c, octalDigit? c with
    | some b, _ => some (b, r)
    | none, some _ =>
      let (n, r) := octal 3 0 (c :: r)
      some (UInt8.ofNat n, r)
    | none, none => none

/-- The bytes of an argument with escapes, and whether output ends with them. -/
def unescape : (fuel : Nat) → List Char → Bytes × Bool
  | 0, _ => ([], false)
  | _, [] => ([], false)
  | _, '\\' :: 'c' :: _ => ([], true)
  | fuel + 1, '\\' :: '0' :: r =>
    let (n, r) := octal 3 0 r
    let (bytes, done) := unescape fuel r
    (UInt8.ofNat n :: bytes, done)
  | fuel + 1, '\\' :: r =>
    let (b, r) := (escape? r).getD (92, r)
    let (bytes, done) := unescape fuel r
    (b :: bytes, done)
  | fuel + 1, c :: r =>
    let (bytes, done) := unescape fuel r
    (utf8 (String.singleton c) ++ bytes, done)

/-- The bytes of a whole argument with escapes, and whether output ends with them. -/
def argument (s : String) : Bytes × Bool := unescape (s.length + 1) s.toList

end TaskFleet.Shell
