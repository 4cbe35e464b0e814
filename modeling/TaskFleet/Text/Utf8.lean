/-
  TaskFleet.Text.Utf8 — UTF-8 read with replacement, and texts cut to a number of bytes.

  `decodeLossy` puts U+FFFD for every longest run of bytes that begins a character and does
  not end it, and for every byte that begins none. `clip` keeps whole characters only.
-/

namespace TaskFleet.Text

/-- What a first byte says of its character: its own bits, and for each further byte the
    range it must lie in; none if it begins no character. -/
def leadByte? (b : Nat) : Option (Nat × List (Nat × Nat)) :=
  let tail := (0x80, 0xBF)
  if b < 0x80 then some (b, [])
  else if 0xC2 ≤ b ∧ b ≤ 0xDF then some (b - 0xC0, [tail])
  else if b = 0xE0 then some (0, [(0xA0, 0xBF), tail])
  else if b = 0xED then some (0xD, [(0x80, 0x9F), tail])
  else if 0xE1 ≤ b ∧ b ≤ 0xEF then some (b - 0xE0, [tail, tail])
  else if b = 0xF0 then some (0, [(0x90, 0xBF), tail, tail])
  else if 0xF1 ≤ b ∧ b ≤ 0xF3 then some (b - 0xF0, [tail, tail, tail])
  else if b = 0xF4 then some (4, [(0x80, 0x8F), tail, tail])
  else none

/-- Reads the bytes after the first one; none for a code point if one is out of its range. -/
def tailBytes (code : Nat) : List (Nat × Nat) → List UInt8 → Option Nat × List UInt8
  | [], bs => (some code, bs)
  | _ :: _, [] => (none, [])
  | (low, high) :: ranges, b :: bs =>
    if low ≤ b.toNat ∧ b.toNat ≤ high then tailBytes (code * 64 + (b.toNat - 0x80)) ranges bs else (none, b :: bs)

theorem length_tailBytes (code : Nat) (ranges : List (Nat × Nat)) (bs : List UInt8) :
    (tailBytes code ranges bs).2.length ≤ bs.length := by
  fun_induction tailBytes code ranges bs with
  | case1 => simp
  | case2 => simp
  | case3 _ _ _ _ _ _ _ ih => simp only [List.length_cons]; omega
  | case4 => simp

/-- The text that bytes stand for, what is not UTF-8 replaced. -/
def decodeLossy : List UInt8 → List Char
  | [] => []
  | b :: bs =>
    match leadByte? b.toNat with
    | none => '\ufffd' :: decodeLossy bs
    | some (code, ranges) =>
      have := length_tailBytes code ranges bs
      (match (tailBytes code ranges bs).1 with
        | some n => Char.ofNat n
        | none => '\ufffd') :: decodeLossy (tailBytes code ranges bs).2
termination_by bs => bs.length
decreasing_by all_goals (simp_all; try omega)

/-- The longest run of whole characters at the front that takes at most so many bytes. -/
def clip : (bytes : Nat) → List Char → List Char
  | _, [] => []
  | bytes, c :: r => if c.utf8Size ≤ bytes then c :: clip (bytes - c.utf8Size) r else []

end TaskFleet.Text
