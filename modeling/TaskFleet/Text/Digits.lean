/-
  TaskFleet.Text.Digits — decimal digits of natural numbers.

  `fixedWidth w n` writes the last `w` digits of `n` with leading zeros, so texts of one
  width are ordered like the numbers they write.
-/

namespace TaskFleet.Text

/-- The digit with this value, for values below ten. -/
def digitChar (d : Nat) : Char := Char.ofNat (48 + d % 10)

/-- The last `width` decimal digits of `n`, leading zeros included. -/
def fixedWidth : (width : Nat) → (n : Nat) → List Char
  | 0, _ => []
  | width + 1, n => fixedWidth width (n / 10) ++ [digitChar n]

@[simp] theorem length_fixedWidth (width n : Nat) : (fixedWidth width n).length = width := by
  induction width generalizing n with
  | zero => rfl
  | succ w ih => simp [fixedWidth, ih]

/-- The value of a decimal digit. -/
def digit? (c : Char) : Option Nat :=
  if '0' ≤ c ∧ c ≤ '9' then some (c.toNat - 48) else none

/-- The value of a list of decimal digits, most significant first. -/
def ofDigits (ds : List Nat) : Nat := ds.foldl (fun n d => 10 * n + d) 0

/-- The number that a non-empty text of nothing but decimal digits writes. -/
def natOf? (cs : List Char) : Option Nat :=
  if cs.isEmpty then none else (cs.mapM digit?).map ofDigits

end TaskFleet.Text
