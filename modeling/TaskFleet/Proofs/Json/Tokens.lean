/-
  TaskFleet.Proofs.Json.Tokens — numbers and strings of JSON texts are read back as they were
  written.

  A number ends where no character can belong to it, so what follows it matters (`EndsNumber`). A
  string ends at its closing quote, whatever follows.
  - `numeral?_toString`, `toDatum_ofInt`: a whole number in decimal digits.
  - `elements?_escape`, `string?_quote`: a string of any characters, with the escapes it needs.
-/

import TaskFleet.Json.Printer
import TaskFleet.Json.Reader

namespace TaskFleet.Json

open Text

variable {c : Char} {cs rest : List Char} {n : Nat} {fuel : Nat}

/-! ## Numbers -/

/-- No character that could belong to a number comes next. -/
def EndsNumber (rest : List Char) : Prop := ∀ c ∈ rest.head?, digit? c = none ∧ c ≠ '.' ∧ c ≠ 'e' ∧ c ≠ 'E'

/-- The values of decimal digits. -/
def digitValues (cs : List Char) : List Nat := cs.map (·.toNat - 48)

/-- A whole number as it is written. -/
def Numeral.ofInt (n : Int) : Numeral :=
  ⟨decide (n < 0), digitValues (Nat.toDigits 10 n.natAbs), none, none⟩

theorem digit?_of_isDigit (h : c.isDigit = true) : digit? c = some (c.toNat - 48) := by
  have hc : '0' ≤ c ∧ c ≤ '9' := by simpa [Char.isDigit, Char.le_def, ge_iff_le] using h
  rw [digit?, if_pos hc]

theorem takeDigits_append (hcs : ∀ c ∈ cs, c.isDigit = true) (hrest : EndsNumber rest) :
    takeDigits (cs ++ rest) = (digitValues cs, rest) := by
  induction cs with
  | nil =>
    cases rest with
    | nil => rfl
    | cons c r =>
      rw [List.nil_append, takeDigits, (hrest c rfl).1]
      rfl
  | cons c cs ih =>
    rw [List.cons_append, takeDigits, digit?_of_isDigit (hcs c List.mem_cons_self),
      ih fun c' hc' => hcs c' (List.mem_cons_of_mem _ hc')]
    rfl

theorem isDigit_toDigits (n : Nat) : ∀ c ∈ Nat.toDigits 10 n, c.isDigit = true :=
  fun _ hc => Nat.isDigit_of_mem_toDigits (by decide) (by decide) hc

theorem ofDigits_digitValues (n : Nat) : ofDigits (digitValues (Nat.toDigits 10 n)) = n := by
  have h : Nat.ofDigitChars 10 (Nat.toDigits 10 n) 0 = n := Nat.ofDigitChars_toDigits (by decide) (by decide)
  rw [Nat.ofDigitChars_eq_foldl] at h
  rw [ofDigits, digitValues, List.foldl_map]
  exact h

/-- Zero alone is written with a zero in front. -/
theorem head_digitValues (h : n ≠ 0) : (digitValues (Nat.toDigits 10 n)).head? ≠ some 0 := by
  induction n using Nat.strongRecOn with
  | _ n ih =>
    -- the digits of `n / 10` stand in front of the last one, so they decide about the first
    rw [Nat.toDigits_eq_if (by decide)]
    split
    · next hlt =>
      have hall : ∀ d < 10, d ≠ 0 → (digitValues [d.digitChar]).head? ≠ some 0 := by decide
      exact hall n hlt h
    · next hge =>
      have hne : digitValues (Nat.toDigits 10 (n / 10)) ≠ [] := by
        simp [digitValues, Nat.toDigits_ne_nil]
      have hhead := ih (n / 10) (by omega) (by omega)
      rw [digitValues, List.map_append, ← digitValues, List.head?_append]
      cases hd : digitValues (Nat.toDigits 10 (n / 10)) with
      | nil => exact absurd hd hne
      | cons d ds => rw [hd] at hhead; exact hhead

/-- The digits of a number are no digits that a number cannot have. -/
theorem digitValues_wellFormed (n : Nat) : ¬((digitValues (Nat.toDigits 10 n)).isEmpty = true ∨
    ((digitValues (Nat.toDigits 10 n)).head? = some 0 ∧ (digitValues (Nat.toDigits 10 n)).length > 1)) := by
  rintro (h | ⟨hhead, hlen⟩)
  · simp [digitValues, Nat.toDigits_ne_nil] at h
  · by_cases hn : n = 0
    · subst hn
      exact absurd hlen (by decide)
    · exact head_digitValues hn hhead

theorem not_mem_toDigits_minus (n : Nat) : '-' ∉ Nat.toDigits 10 n :=
  fun h => absurd (isDigit_toDigits n _ h) (by decide)

/-- After the sign come the digits, and then neither a point nor an exponent. -/
theorem numeral?_of_sign {negative : Bool} (hrest : EndsNumber rest)
    (hcs : cs = if negative then '-' :: (Nat.toDigits 10 n ++ rest) else Nat.toDigits 10 n ++ rest) :
    numeral? cs = some (⟨negative, digitValues (Nat.toDigits 10 n), none, none⟩, rest) := by
  unfold numeral?
  split
  next negative' cs' hsign =>
  have hsplit : negative' = negative ∧ cs' = Nat.toDigits 10 n ++ rest := by
    cases negative with
    | true =>
      subst hcs
      cases hsign
      exact ⟨rfl, rfl⟩
    | false =>
      split at hsign
      · next r =>
        cases hd : Nat.toDigits 10 n with
        | nil => exact absurd hd Nat.toDigits_ne_nil
        | cons c l =>
          rw [hd] at hcs
          cases hcs
          exact absurd (hd ▸ List.mem_cons_self) (not_mem_toDigits_minus n)
      · cases hsign
        exact ⟨rfl, hcs⟩
  obtain ⟨rfl, rfl⟩ := hsplit
  rw [takeDigits_append (isDigit_toDigits n) hrest]
  dsimp only
  rw [if_neg (digitValues_wellFormed n)]
  dsimp only [Option.bind_eq_bind, Option.bind_some]
  split
  · exact absurd rfl (hrest _ rfl).2.1
  · split
    · exact absurd rfl (hrest _ rfl).2.2.1
    · exact absurd rfl (hrest _ rfl).2.2.2
    · rfl

theorem toList_toString (m : Int) : (toString m).toList =
    if decide (m < 0) then '-' :: Nat.toDigits 10 m.natAbs else Nat.toDigits 10 m.natAbs := by
  cases m with
  | ofNat n =>
    show (Nat.repr n).toList = _
    rw [Nat.toList_repr, if_neg (by simp)]
    rfl
  | negSucc n =>
    show ("-" ++ Nat.repr (n + 1)).toList = _
    rw [String.toList_append, Nat.toList_repr, if_pos (by simp)]
    rfl

theorem numeral?_toString (m : Int) (hrest : EndsNumber rest) :
    numeral? ((toString m).toList ++ rest) = some (.ofInt m, rest) := by
  refine numeral?_of_sign hrest ?_
  rw [toList_toString]
  split <;> rfl

/-- Where 64 bits hold a whole number it stays whole. -/
theorem toDatum_ofInt {m : Int} (hlo : Int64.minValue.toInt ≤ m) (hhi : m < UInt64.size) :
    (Numeral.ofInt m).toDatum = .whole m := by
  have hmag : ofDigits (digitValues (Nat.toDigits 10 m.natAbs)) = m.natAbs := ofDigits_digitValues _
  unfold Numeral.toDatum Numeral.ofInt
  dsimp only
  rw [hmag]
  have hsize : UInt64.size = 18446744073709551616 := rfl
  have hmin : Int64.minValue.toInt = -9223372036854775808 := rfl
  by_cases hneg : m < 0
  · rw [if_neg fun h => Bool.noConfusion ((decide_eq_true hneg).symm.trans h.2.2.1),
      if_pos ⟨rfl, rfl, decide_eq_true hneg, by omega, by omega⟩]
    congr 1
    omega
  · rw [if_pos ⟨rfl, rfl, decide_eq_false hneg, by omega⟩]
    congr 1
    omega

/-! ## Strings -/

theorem hexDigit?_hexChar (h : n < 16) : hexDigit? (hexChar n) = some n := by
  have hall : ∀ n < 16, hexDigit? (hexChar n) = some n := by decide
  exact hall n h

/-- A control character by its number. -/
theorem escape?_unit (h : c.toNat < 0x20) :
    escape? ('u' :: '0' :: '0' :: hexChar (c.toNat / 16) :: hexChar (c.toNat % 16) :: rest) = some (.char c, rest) := by
  have hzero : hexDigit? '0' = some 0 := by decide
  have hunit : unit? ('0' :: '0' :: hexChar (c.toNat / 16) :: hexChar (c.toNat % 16) :: rest) = some (c.toNat, rest) := by
    simp only [unit?, hzero, hexDigit?_hexChar (by omega : c.toNat / 16 < 16),
      hexDigit?_hexChar (by omega : c.toNat % 16 < 16), Option.bind_eq_bind, Option.bind_some]
    show some (_, rest) = _
    congr 2
    omega
  simp only [escape?, hunit, Option.bind_eq_bind, Option.bind_some]
  rw [if_neg (by omega), Char.ofNat_toNat]
  rfl

theorem elements?_of_escape {e : Element} (h : escape? cs = some (e, rest)) :
    elements? (fuel + 1) ('\\' :: cs) = (elements? fuel rest).map fun p => (e :: p.1, p.2) := by
  simp only [elements?, h, Option.bind_eq_bind, Option.bind_some]
  cases elements? fuel rest <;> rfl

theorem elements?_of_plain (hquote : c ≠ '"') (hbackslash : c ≠ '\\') (h : ¬c.toNat < 0x20) :
    elements? (fuel + 1) (c :: cs) = (elements? fuel cs).map fun p => (.char c :: p.1, p.2) := by
  rw [elements?, if_neg h]
  · show (elements? fuel cs).bind _ = _
    cases elements? fuel cs <;> rfl
  · exact hquote
  · exact hbackslash

/-- A character is one element, with its escape or without. -/
theorem elements?_escape (fuel : Nat) (c : Char) (cs : List Char) :
    elements? (fuel + 1) (escape c ++ cs) = (elements? fuel cs).map fun p => (.char c :: p.1, p.2) := by
  unfold escape
  split
  -- The characters that have a letter of their own come first.
  iterate 7 exact elements?_of_escape rfl
  next hquote hbackslash _ _ _ _ _ =>
    split
    · next h => exact elements?_of_escape (escape?_unit h)
    · next h => exact elements?_of_plain hquote hbackslash h

theorem escape_ne_nil (c : Char) : escape c ≠ [] := by
  unfold escape
  split
  iterate 7 exact List.cons_ne_nil _ _
  split <;> exact List.cons_ne_nil _ _

theorem length_le_length_flatMap_escape (cs : List Char) : cs.length ≤ (cs.flatMap escape).length := by
  induction cs with
  | nil => exact Nat.le_refl 0
  | cons c cs ih =>
    have hc : 0 < (escape c).length := List.length_pos_iff.2 (escape_ne_nil c)
    rw [List.flatMap_cons, List.length_append, List.length_cons]
    omega

theorem elements?_quote (hfuel : cs.length < fuel) :
    elements? fuel (cs.flatMap escape ++ '"' :: rest) = some (cs.map .char, rest) := by
  induction cs generalizing fuel with
  | nil =>
    cases fuel with
    | zero => omega
    | succ fuel => rfl
  | cons c cs ih =>
    cases fuel with
    | zero => omega
    | succ fuel =>
      rw [List.flatMap_cons, List.append_assoc, elements?_escape, ih (by simpa using hfuel)]
      rfl

theorem joinHalves_chars (cs : List Char) : joinHalves (cs.map .char) = some cs := by
  induction cs with
  | nil => rfl
  | cons c cs ih => rw [List.map_cons, joinHalves, ih]; rfl

/-- A string is read back to its closing quote, whatever follows. -/
theorem string?_quote (s : String) (rest : List Char) :
    string? (s.toList.flatMap escape ++ '"' :: rest) = some (some s, rest) := by
  have hlen := length_le_length_flatMap_escape s.toList
  rw [string?, elements?_quote (by rw [List.length_append]; omega), Option.map_some]
  dsimp only
  rw [joinHalves_chars, Option.map_some, String.ofList_toList]

end TaskFleet.Json
