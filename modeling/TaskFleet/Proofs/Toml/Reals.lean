/-
  TaskFleet.Proofs.Toml.Reals — every double is read back from its text.

  The text of a finite double is a number without an exponent (`Written`), with a minus sign for a
  negative one. It says the shortest decimal number that rounds to the double.
-/

import TaskFleet.Proofs.Decimal.Shortest
import TaskFleet.Proofs.Toml.Numbers

namespace TaskFleet.Toml

open Text Json Decimal
open Float.Model.UnpackedFloat

variable {cs rest whole fraction : List Char} {n m : Nat} {g q : Int} {x : Float}

/-! ## Digits around the point -/

theorem ofDigits_append (ds es : List Nat) : ofDigits (ds ++ es) = ofDigits ds * 10 ^ es.length + ofDigits es := by
  induction es using List.reverseRecOn with
  | nil => simp [ofDigits]
  | append_singleton es d ih =>
    have hlast : ∀ fs : List Nat, ofDigits (fs ++ [d]) = 10 * ofDigits fs + d := by simp [ofDigits]
    rw [← List.append_assoc, hlast, hlast, ih, List.length_append, List.length_singleton, pow_succ]
    ring

theorem ofDigits_replicate (k : Nat) : ofDigits (List.replicate k 0) = 0 := by
  induction k with
  | zero => rfl
  | succ k ih => exact ih

theorem digitValues_append (cs ds : List Char) : digitValues (cs ++ ds) = digitValues cs ++ digitValues ds := List.map_append

theorem digitValues_zeros (k : Nat) : digitValues (List.replicate k '0') = List.replicate k 0 := List.map_replicate

theorem isDigit_zeros (k : Nat) : ∀ c ∈ List.replicate k '0', c.isDigit = true := by
  intro c hc
  rw [List.eq_of_mem_replicate hc]
  decide

/-- Digits before and behind a point that say this decimal number. -/
structure Written (whole fraction : List Char) (v : ℚ) : Prop where
  isWhole : IsWhole whole
  ne_nil : fraction ≠ []
  digits : ∀ c ∈ fraction, c.isDigit = true
  value : (ofDigits (digitValues whole ++ digitValues fraction) : ℚ) * 10 ^ (-(fraction.length : ℤ)) = v

theorem head_toDigits (hn : 0 < n) : (Nat.toDigits 10 n).head? ≠ some '0' :=
  (isWhole_toDigits n).plain.resolve_left fun h => by
    have hzero : ofDigits (digitValues ['0']) = 0 := ofDigits_digitValues 0
    have hn' := ofDigits_digitValues n
    rw [h, hzero] at hn'
    exact hn.ne hn'

theorem written_large (hn : 0 < n) (hg : 0 ≤ g) :
    Written (Nat.toDigits 10 n ++ List.replicate g.toNat '0') ['0'] (n * 10 ^ g) := by
  obtain ⟨k, rfl⟩ := Int.eq_ofNat_of_zero_le hg
  refine ⟨⟨?_, ?_, .inr ?_⟩, by simp, isDigit_zeros 1, ?_⟩
  · simp [Nat.toDigits_ne_nil]
  · intro c hc
    rcases List.mem_append.1 hc with hc | hc
    · exact isDigit_toDigits n c hc
    · exact isDigit_zeros _ c hc
  · rw [List.head?_append_of_ne_nil _ Nat.toDigits_ne_nil]
    exact head_toDigits hn
  · have hvalue : ofDigits (digitValues (Nat.toDigits 10 n ++ List.replicate k '0') ++ digitValues ['0']) =
        n * 10 ^ k * 10 := by
      rw [ofDigits_append, digitValues_append, ofDigits_append, digitValues_zeros, ofDigits_replicate, ofDigits_digitValues,
        List.length_replicate]
      rfl
    rw [Int.toNat_natCast, hvalue, zpow_natCast]
    push_cast
    norm_num
    ring

theorem written_small (hn : 0 < n) {places : Nat} (hplaces : 0 < places) {padded : List Char}
    (hpadded : padded = List.replicate (places + 1 - (Nat.toDigits 10 n).length) '0' ++ Nat.toDigits 10 n) :
    Written (padded.take (padded.length - places)) (padded.drop (padded.length - places)) (n * 10 ^ (-(places : ℤ))) := by
  have hlength : padded.length = max (places + 1) (Nat.toDigits 10 n).length := by
    rw [hpadded, List.length_append, List.length_replicate]
    omega
  have hdigits : ∀ c ∈ padded, c.isDigit = true := by
    intro c hc
    rcases List.mem_append.1 (hpadded ▸ hc) with hc | hc
    · exact isDigit_zeros _ c hc
    · exact isDigit_toDigits n c hc
  refine ⟨⟨?_, fun c hc => hdigits c (List.mem_of_mem_take hc), ?_⟩, ?_, fun c hc => hdigits c (List.mem_of_mem_drop hc), ?_⟩
  · intro hnil
    have hnone := congrArg List.length hnil
    rw [List.length_take, List.length_nil] at hnone
    omega
  · by_cases hlong : places < (Nat.toDigits 10 n).length
    · right
      have hsame : padded = Nat.toDigits 10 n := by
        rw [hpadded, Nat.sub_eq_zero_of_le hlong]
        rfl
      rw [List.head?_take, if_neg (by omega), hsame]
      exact head_toDigits hn
    · left
      have hone : padded.length - places = 1 := by omega
      rw [hone, hpadded, Nat.sub_add_comm (by omega), List.replicate_succ]
      rfl
  · intro hnil
    have hnone := congrArg List.length hnil
    rw [List.length_drop, List.length_nil] at hnone
    omega
  · have hvalue : ofDigits (digitValues padded) = n := by
      rw [hpadded, digitValues_append, ofDigits_append, digitValues_zeros, ofDigits_replicate, ofDigits_digitValues, zero_mul,
        zero_add]
    have hcount : (padded.drop (padded.length - places)).length = places := by
      rw [List.length_drop]
      omega
    rw [← digitValues_append, List.take_append_drop, hvalue, hcount]

theorem positional_written (hn : 0 < n) (g : Int) :
    ∃ whole fraction, positional n g = whole ++ '.' :: fraction ∧ Written whole fraction (n * 10 ^ g) := by
  have hdigits : (toString n).toList = Nat.toDigits 10 n := Nat.toList_repr
  unfold positional
  simp only [hdigits]
  split
  · next hg =>
    refine ⟨_, _, ?_, written_large hn hg⟩
    rw [List.append_assoc]
  · next hg =>
    obtain ⟨places, rfl⟩ := Int.exists_eq_neg_ofNat (le_of_not_ge hg)
    rw [neg_neg, Int.toNat_natCast]
    exact ⟨_, _, rfl, written_small hn (by omega) rfl⟩

/-! ## Reading a number with a point -/

theorem Stops.optionalExponent? (h : Stops rest) : optionalExponent? rest = some (0, rest) := by
  refine optionalExponent?.eq_3 _ (fun r hr => ?_) fun r hr => ?_ <;>
    rcases h _ (by rw [hr]; rfl) with hc | hc | hc <;> exact absurd hc (by decide)

/-- The sign of a number in front of its digits. -/
def signText (negative : Bool) : List Char := if negative then ['-'] else []

theorem decimal?_written {v : ℚ} (h : Written whole fraction v) (hrest : Stops rest) (negative : Bool)
    (hx : toFloat (ofDigits (digitValues whole ++ digitValues fraction)) (-fraction.length) = x) (hfinite : x.isInf = false) :
    decimal? (signText negative ++ (whole ++ '.' :: fraction ++ rest)) =
      some (.ofReal (if negative then -x else x), rest) := by
  have hsign : sign (signText negative ++ (whole ++ '.' :: fraction ++ rest)) =
      (negative, whole ++ '.' :: fraction ++ rest) := by
    cases negative with
    | true => rfl
    | false =>
      rw [List.append_assoc]
      exact h.isWhole.sign
  have hpoint : EndsDigits ('.' :: fraction ++ rest) := by
    intro c hc
    cases hc
    decide
  have hdigits := digits?_append h.ne_nil h.digits hrest.endsDigits
  have hfraction : fraction? ('.' :: fraction ++ rest) = some ((digitValues fraction, 0), rest) := by
    rw [List.cons_append, fraction?.eq_1, hdigits]
    simp only [Option.bind_eq_bind, Option.bind_some, hrest.optionalExponent?]
    rfl
  have hlength : (0 : ℤ) - (digitValues fraction).length = -fraction.length := by
    rw [digitValues, List.length_map, zero_sub]
  unfold decimal?
  rw [hsign, List.append_assoc]
  simp only [h.isWhole.wholeDigits? hpoint, hfraction, Option.bind_eq_bind, Option.bind_some, hlength, hx, hfinite]
  rfl

theorem scalarValue?_written {v : ℚ} (h : Written whole fraction v) (hrest : Stops rest) (negative : Bool)
    (hx : toFloat (ofDigits (digitValues whole ++ digitValues fraction)) (-fraction.length) = x) (hfinite : x.isInf = false) :
    scalarValue? (signText negative ++ (whole ++ '.' :: fraction ++ rest)) =
      some (.ofReal (if negative then -x else x), rest) := by
  have hdecimal := decimal?_written h hrest negative hx hfinite
  cases negative with
  | true =>
    rw [scalarValue?_of_head, hdecimal]
    · rfl
    · intro c hc
      cases hc
      decide
    · refine moment?_of_head (by simp [signText]) fun c hc => ?_
      cases hc
      decide
  | false =>
    have hmoment : moment? (whole ++ ('.' :: fraction ++ rest)) = none := by
      refine h.isWhole.moment? fun c hc => ?_
      cases hc
      decide
    rw [List.append_assoc] at hdecimal ⊢
    change decimal? (whole ++ _) = _ at hdecimal
    change scalarValue? (whole ++ _) = _
    rw [h.isWhole.scalarValue? hmoment, hdecimal]
    rfl

/-! ## Doubles -/

theorem neg_is (hM : Canonical m q) (hq : q ≤ 971) {y : Float} (hx : ∃ h, x.toModel.unpack = .finite .negative m q h)
    (hy : Is y m q) : -y = x := by
  obtain ⟨hpos, hx⟩ := hx
  obtain ⟨_, hy⟩ := hy
  refine eq_of_unpack ?_
  have hneg : (-y).toModel = .pack y.toModel.unpack.neg := rfl
  rw [hneg, hy, hx]
  exact unpack_pack hM hq

theorem isInf_of_unpack {sign : Sign} {hpos : 0 < m} (hx : x.toModel.unpack = .finite sign m q hpos) : x.isInf = false := by
  change x.toModel.unpack.isInf = false
  rw [hx]
  rfl

/-- What the digits of a finite double's text say is the double without its sign. -/
theorem finite_is (h : HasParts x.toBits m q) {v : ℚ} {g : Int}
    (hv : v = (Binary.ofBits x.toBits.toNat).shortest.1 * 10 ^ (Binary.ofBits x.toBits.toNat).shortest.2)
    (hn : (n : ℚ) * 10 ^ g = v) : Is (toFloat n g) m q := by
  obtain ⟨rfl, rfl⟩ := h.parts
  have hholds := Binary.shortest_holds h.canonical.pos h.canonical.least
  have hround := Binary.roundsTo_of_holds h.canonical (isLopsided_ofBits x.toBits.toNat) hholds
  have hpos := Binary.shortest_pos h.canonical.pos h.canonical.least
  rw [← hv, ← hn] at hround
  refine toFloat_is h.canonical h.most ?_ hround
  by_contra hzero
  have hvpos : 0 < v := by
    rw [hv]
    positivity
  rw [← hn, Nat.eq_zero_of_not_pos hzero] at hvpos
  simp at hvpos

theorem toList_text (h : HasParts x.toBits m q) : (Decimal.text x).toList = signText (!(x.toBits < 0x8000000000000000)) ++
    positional (Binary.ofBits x.toBits.toNat).shortest.1 (Binary.ofBits x.toBits.toNat).shortest.2 := by
  have hx : x.toModel.unpack = .finite (signOf x.toBits) m q h.canonical.pos := h.unpack_eq
  have hnan : x.isNaN = false := by
    change x.toModel.unpack.isNaN = false
    rw [hx]
    rfl
  have hzero : (x == 0) = false := by
    change x.toModel.unpack.beq (.zero .positive) = false
    rw [hx]
    cases signOf x.toBits <;> rfl
  unfold Decimal.text
  rw [hnan, isInf_of_unpack hx, hzero]
  by_cases hsign : x.toBits < 0x8000000000000000
  · rw [if_pos hsign, decide_eq_true hsign]
    simp [signText]
  · rw [if_neg hsign, decide_eq_false hsign]
    simp [signText]

theorem scalarValue?_finite (h : HasParts x.toBits m q) (hrest : Stops rest) :
    scalarValue? ((Decimal.text x).toList ++ rest) = some (.ofReal x, rest) := by
  have hpos : 0 < (Binary.ofBits x.toBits.toNat).shortest.1 := by
    obtain ⟨rfl, rfl⟩ := h.parts
    exact Binary.shortest_pos h.canonical.pos h.canonical.least
  obtain ⟨whole, fraction, htext, hwritten⟩ := positional_written hpos (Binary.ofBits x.toBits.toNat).shortest.2
  have hy := finite_is h rfl hwritten.value
  obtain ⟨_, hunpack⟩ := id hy
  have hx : x.toModel.unpack = .finite (signOf x.toBits) m q h.canonical.pos := h.unpack_eq
  rw [toList_text h, htext, List.append_assoc, scalarValue?_written hwritten hrest _ rfl (isInf_of_unpack hunpack)]
  by_cases hsign : x.toBits < 0x8000000000000000
  · rw [signOf, if_pos hsign] at hx
    rw [decide_eq_true hsign, hy.eq ⟨_, hx⟩]
    rfl
  · rw [signOf, if_neg hsign] at hx
    rw [decide_eq_false hsign, ← neg_is h.canonical h.most ⟨_, hx⟩ hy]
    rfl

/-- The texts of the values that have no digits. -/
theorem scalarValue?_special {special : String} (hspecial : special = "nan" ∨ special = "inf" ∨ special = "-inf")
    {d : Datum} (hd : special? (special.toList ++ rest) = some (d, rest)) :
    scalarValue? (special.toList ++ rest) = some (d, rest) := by
  have hdecimal : decimal? (special.toList ++ rest) = none := by
    rcases hspecial with rfl | rfl | rfl <;> rfl
  rw [scalarValue?_of_head, hdecimal, hd]
  · rfl
  · intro c hc
    rcases hspecial with rfl | rfl | rfl <;> cases hc <;> decide
  · refine moment?_of_head (by rcases hspecial with rfl | rfl | rfl <;> simp) fun c hc => ?_
    rcases hspecial with rfl | rfl | rfl <;> cases hc <;> decide

theorem scalarValue?_zero (hrest : Stops rest) (negative : Bool) :
    scalarValue? (signText negative ++ (['0', '.', '0'] ++ rest)) = some (.ofReal (if negative then -0 else 0), rest) := by
  have hzero : Written ['0'] ['0'] 0 := ⟨isWhole_toDigits 0, by simp, isDigit_zeros 1, by simp [ofDigits, digitValues]⟩
  exact scalarValue?_written hzero hrest negative rfl rfl

/-- Every double is read back from its text. -/
theorem scalarValue?_real (x : Float) (hrest : Stops rest) :
    scalarValue? ((Decimal.text x).toList ++ rest) = some (.ofReal x, rest) := by
  rcases unpack_cases x.toBits with h | h | h | ⟨m, q, h⟩
  · obtain rfl : x = 0 / 0 := eq_of_unpack h
    exact scalarValue?_special (.inl rfl) rfl
  · cases hsign : signOf x.toBits with
    | positive =>
      obtain rfl : x = 1 / 0 := eq_of_unpack (h.trans (congrArg _ hsign))
      exact scalarValue?_special (.inr (.inl rfl)) rfl
    | negative =>
      obtain rfl : x = -1 / 0 := eq_of_unpack (h.trans (congrArg _ hsign))
      exact scalarValue?_special (.inr (.inr rfl)) rfl
  · cases hsign : signOf x.toBits with
    | positive =>
      obtain rfl : x = 0 := eq_of_unpack (h.trans (congrArg _ hsign))
      exact scalarValue?_zero hrest false
    | negative =>
      obtain rfl : x = -0 := eq_of_unpack (h.trans (congrArg _ hsign))
      exact scalarValue?_zero hrest true
  · exact scalarValue?_finite h hrest

end TaskFleet.Toml
