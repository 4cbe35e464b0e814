/-
  TaskFleet.Proofs.Decimal.Readings — a decimal number reads as the double it rounds to.
-/

import TaskFleet.Proofs.Decimal.Doubles

namespace TaskFleet.Decimal

open Float.Model (Format UnpackedFloat totalExponent)
open Float.Model.UnpackedFloat

variable {x y : Float} {n m M : ℕ} {e q : ℤ} {v : ℚ}

/-- The double is the finite positive one with these parts. -/
def Is (x : Float) (m : ℕ) (e : ℤ) : Prop := ∃ h, x.toModel.unpack = .finite .positive m e h

theorem Is.eq (hx : Is x m e) (hy : Is y m e) : x = y := by
  obtain ⟨_, hx⟩ := hx
  obtain ⟨_, hy⟩ := hy
  exact eq_of_unpack (hx.trans hy.symm)

theorem is_pack (hM : Canonical M q) (hq : q ≤ 971) :
    Is (.ofModel (.pack (.finite .positive M q hM.pos))) M q := ⟨hM.pos, unpack_pack hM hq⟩

/-! ## The arithmetic of doubles -/

theorem mul_is {x₁ x₂ : Float} {m₁ m₂ : ℕ} {e₁ e₂ : ℤ} (hM : Canonical M q) (hq : q ≤ 971) (h₁ : Is x₁ m₁ e₁)
    (h₂ : Is x₂ m₂ e₂) (hv : RoundsTo M q (m₁ * 2 ^ e₁ * (m₂ * 2 ^ e₂))) (hbig : 2 ^ 52 ≤ m₁ * m₂) : Is (x₁ * x₂) M q := by
  obtain ⟨p₁, h₁⟩ := h₁
  obtain ⟨p₂, h₂⟩ := h₂
  have hmul : x₁ * x₂ = .ofModel (.pack (.finite .positive M q hM.pos)) := by
    rw [← mul_eq p₁ p₂ hM hv hbig, ← h₁, ← h₂]
    rfl
  rw [hmul]
  exact is_pack hM hq

theorem div_is {x₁ x₂ : Float} {m₁ m₂ : ℕ} {e₁ e₂ : ℤ} (hM : Canonical M q) (hq : q ≤ 971) (h₁ : Is x₁ m₁ e₁)
    (h₂ : Is x₂ m₂ e₂) (hv : RoundsTo M q (m₁ * 2 ^ e₁ / (m₂ * 2 ^ e₂))) : Is (x₁ / x₂) M q := by
  obtain ⟨p₁, h₁⟩ := h₁
  obtain ⟨p₂, h₂⟩ := h₂
  have hdiv : x₁ / x₂ = .ofModel (.pack (.finite .positive M q hM.pos)) := by
    rw [← div_eq p₁ p₂ hM hv, ← h₁, ← h₂]
    rfl
  rw [hdiv]
  exact is_pack hM hq

theorem roundsTo_self (M : ℕ) (q : ℤ) : RoundsTo M q (M * 2 ^ q) := by
  have hpos := two_zpow_pos q
  refine ⟨mul_le_mul_of_nonneg_right ?_ hpos.le, mul_le_mul_of_nonneg_right (by linarith) hpos.le, fun htie => ?_⟩
  · split <;> linarith
  · rcases htie with h | h <;> have h := mul_right_cancel₀ hpos.ne' h <;> linarith

theorem le_shifted (hpos : 0 < n) (hlog : n.log2 ≤ 52) : 2 ^ 52 ≤ n <<< (52 - n.log2) := by
  have hpow : 2 ^ n.log2 * 2 ^ (52 - n.log2) = 2 ^ 52 := by
    rw [← Nat.pow_add, Nat.add_sub_cancel' hlog]
  rw [Nat.shiftLeft_eq, ← hpow]
  exact Nat.mul_le_mul_right _ (Nat.log2_self_le hpos.ne')

theorem shifted_lt (hlog : n.log2 ≤ 52) : n <<< (52 - n.log2) < 2 ^ 53 := by
  have hpow : 2 ^ (n.log2 + 1) * 2 ^ (52 - n.log2) = 2 ^ 53 := by
    rw [← Nat.pow_add]
    congr 1
    omega
  rw [Nat.shiftLeft_eq, ← hpow]
  exact Nat.mul_lt_mul_of_pos_right Nat.lt_log2_self (by positivity)

/-- A whole number of 53 bits is a double. -/
theorem is_toFloat (hpos : 0 < n) (hlt : n < 2 ^ 53) :
    Is n.toUInt64.toFloat (n <<< (52 - n.log2)) (-(52 - n.log2 : ℕ)) := by
  have hlog : n.log2 ≤ 52 := Nat.le_of_lt_succ ((Nat.log2_lt hpos.ne').2 hlt)
  have hle := le_shifted hpos hlog
  have hM : Canonical (n <<< (52 - n.log2)) (-(52 - n.log2 : ℕ)) := ⟨by omega, shifted_lt hlog, by omega, .inl hle⟩
  have hround : UnpackedFloat.round .binary64 .positive n 0 =
      .finite .positive (n <<< (52 - n.log2)) (-(52 - n.log2 : ℕ)) hM.pos := by
    have ht : Format.binary64.targetExponent (totalExponent n 0) = n.log2 - 52 := by
      rw [targetExponent_eq, target]
      omega
    have hshift : (0 - ((n.log2 : ℤ) - 52)).toNat = 52 - n.log2 := by omega
    unfold UnpackedFloat.round decreaseExponent
    simp only [ht, hshift]
    rw [Int.zero_sub]
    refine roundWithAccuracy_eq hM (roundsTo_self _ _) hM.target_eq.ge ?_
    rw [mul_div_cancel_right₀ _ (two_zpow_pos _).ne']
    rfl
  have hfloat : n.toUInt64.toFloat = .ofModel (.pack (UnpackedFloat.round .binary64 .positive n 0)) := by
    have hn : n.toUInt64.toNat = n := UInt64.toNat_ofNat_of_lt (hlt.trans (by norm_num))
    have hcompare : compare (n : ℤ) 0 = .gt := compare_gt_iff_gt.2 (by exact_mod_cast hpos)
    show Float.ofModel (.pack (UnpackedFloat.normalize .binary64 (n.toUInt64.toNat : ℤ) 0 .positive)) = _
    rw [hn, UnpackedFloat.normalize, hcompare]
    rfl
  rw [hfloat, hround]
  exact is_pack hM (by omega)

theorem is_ofBits {bits : UInt64} (h : HasParts bits m q) (hsign : signOf bits = .positive) : Is (.ofBits bits) m q := by
  have hmodel : (Float.ofBits bits).toModel = .pack (.finite .positive m q h.canonical.pos) := by
    rw [← hsign, ← h.unpack_eq]
    rfl
  refine ⟨h.canonical.pos, ?_⟩
  rw [hmodel]
  exact unpack_pack h.canonical h.most

/-- The value of a double that is not next to zero, read from its bits. -/
theorem is_ofBits_value {bits : UInt64} {p k : ℕ} (hsign : signOf bits = .positive) (hp : bits.toNat / 2 ^ 52 % 2 ^ 11 = p)
    (hlow : p ≠ 0) (hhigh : p ≠ 2047) (hk : (2 ^ 52 + bits.toNat % 2 ^ 52) * 2 ^ (p - 1075) = k * 2 ^ (1075 - p)) :
    ∃ m e, Is (.ofBits bits) m e ∧ (m * 2 ^ e : ℚ) = k := by
  have hparts := hasParts_normal (hp ▸ hlow) (hp ▸ hhigh)
  rw [hp] at hparts
  refine ⟨_, _, is_ofBits hparts hsign, ?_⟩
  have hpow : (2 : ℚ) ^ ((p : ℤ) - 1075) * 2 ^ (1075 - p) = 2 ^ (p - 1075) := by
    have hexp : (p : ℤ) - 1075 + (1075 - p : ℕ) = (p - 1075 : ℕ) := by omega
    rw [← zpow_natCast 2 (1075 - p), ← zpow_natCast 2 (p - 1075), ← two_zpow_add, hexp]
  have hk : ((2 ^ 52 + bits.toNat % 2 ^ 52 : ℕ) : ℚ) * 2 ^ (p - 1075) = k * 2 ^ (1075 - p) := by exact_mod_cast hk
  rw [← hpow, ← mul_assoc] at hk
  exact mul_right_cancel₀ (by positivity) hk

/-- The powers of ten that are doubles. -/
theorem is_powerOfTen (i : Fin 23) (hi : i.val < Float.exactlyRepresentablePowersOfTen.size) :
    ∃ m e, Is Float.exactlyRepresentablePowersOfTen[i.val] m e ∧ (m * 2 ^ e : ℚ) = (10 ^ i.val : ℕ) := by
  fin_cases i
  all_goals exact is_ofBits_value rfl rfl (by decide) (by decide) (by decide)

/-! ## Decimal numbers -/

theorem roundsTo_congr {w : ℚ} (h : v = w) (hv : RoundsTo M q v) : RoundsTo M q w := h ▸ hv

/-- The path for numbers of at most 53 bits with small powers of ten. -/
theorem ofScientific_fast {s : Bool} {i : ℕ} (hM : Canonical M q) (hq : q ≤ 971) (hn : 0 < n) (hlt : n < 2 ^ 53) (hi : i ≤ 22)
    (hv : RoundsTo M q (if s then (n : ℚ) / 10 ^ i else n * 10 ^ i)) : Is (Float.ofScientific n s i) M q := by
  have hlog : n.log2 ≤ 52 := Nat.le_of_lt_succ ((Nat.log2_lt hn.ne').2 hlt)
  have hx := is_toFloat hn hlt
  obtain ⟨m, e, hp, hpow⟩ := is_powerOfTen ⟨i, by omega⟩ (Nat.lt_succ_of_le hi)
  have hxval : ((n <<< (52 - n.log2) : ℕ) : ℚ) * 2 ^ (-(52 - n.log2 : ℕ) : ℤ) = n := by
    rw [Nat.shiftLeft_eq, zpow_neg, zpow_natCast]
    push_cast
    field_simp
  unfold Float.ofScientific
  rw [dif_pos ⟨hlt, hi⟩]
  cases s with
  | true =>
    refine div_is hM hq hx hp ?_
    rw [hxval, hpow]
    simpa using hv
  | false =>
    refine mul_is hM hq hx hp ?_ ?_
    · rw [hxval, hpow]
      simpa using hv
    · obtain ⟨hm, -⟩ := hp
      exact (le_shifted hn hlog).trans (Nat.le_mul_of_pos_right _ hm)

/-- The path for all other numbers. -/
theorem ofScientific_slow (hM : Canonical M q) (hn : 0 < n) (hlow : -2048 - (n.log2 : ℤ) ≤ e) (hhigh : e ≤ 2048)
    (hv : RoundsTo M q (n * 10 ^ e)) : UnpackedFloat.ofScientific .binary64 n e = .finite .positive M q hM.pos := by
  unfold UnpackedFloat.ofScientific
  rw [dif_neg hn.ne', if_neg (by norm_num; omega), if_neg (by norm_num; omega)]
  by_cases he : 0 ≤ e
  · rw [if_pos he]
    obtain ⟨k, rfl⟩ := Int.eq_ofNat_of_zero_le he
    refine mul_eq _ _ hM (roundsTo_congr ?_ hv) ?_
    · change (n : ℚ) * 10 ^ (k : ℤ) = (n <<< 53 : ℕ) * 2 ^ (-53 : ℤ) * ((10 ^ k : ℕ) * 2 ^ (0 : ℤ))
      rw [Nat.shiftLeft_eq, zpow_natCast]
      push_cast
      norm_num
      ring
    · change 2 ^ 52 ≤ n <<< 53 * 10 ^ k
      rw [Nat.shiftLeft_eq, Nat.mul_assoc]
      calc 2 ^ 52 ≤ 1 * (2 ^ 53 * 1) := by norm_num
        _ ≤ n * (2 ^ 53 * 10 ^ k) := Nat.mul_le_mul hn (Nat.mul_le_mul_left _ (Nat.one_le_pow _ _ (by norm_num)))
  · rw [if_neg he]
    obtain ⟨k, rfl⟩ := Int.exists_eq_neg_ofNat (le_of_not_ge he)
    refine div_eq _ _ hM (roundsTo_congr ?_ hv)
    rw [neg_neg, Int.toNat_natCast, zpow_neg, zpow_natCast, zpow_zero, mul_one, mul_one]
    push_cast
    rfl

/-! ## How long a number can be -/

theorem lt_pow_length (n : ℕ) : n < 10 ^ (toString n).length :=
  (Nat.length_repr_le_iff Nat.length_repr_pos).1 le_rfl

theorem pow_length_le (hn : 0 < n) : 10 ^ ((toString n).length - 1) ≤ n := by
  by_contra hlt
  have hone : 1 < (toString n).length := by
    by_contra hle
    rw [Nat.sub_eq_zero_of_le (not_lt.1 hle)] at hlt
    omega
  have hle := (Nat.length_repr_le_iff (n := n) (k := (toString n).length - 1) (by omega)).2 (not_le.1 hlt)
  change (toString n).length ≤ _ at hle
  omega

theorem ten_zpow_add (a b : ℤ) : (10 : ℚ) ^ (a + b) = 10 ^ a * 10 ^ b := zpow_add₀ (by norm_num) a b

theorem ten_zpow_lt_iff {a b : ℤ} : (10 : ℚ) ^ a < 10 ^ b ↔ a < b := zpow_lt_zpow_iff_right₀ (by norm_num)

theorem two_pow_lt_ten_pow : (2 : ℚ) ^ (1080 : ℤ) < 10 ^ (400 : ℤ) := by
  have hsmall : (2 : ℚ) ^ (135 : ℤ) < 10 ^ (50 : ℤ) := by norm_num
  have hpow := pow_lt_pow_left₀ hsmall (by positivity) (by norm_num : 8 ≠ 0)
  rwa [← zpow_natCast, ← zpow_natCast, ← zpow_mul, ← zpow_mul] at hpow

theorem RoundsTo.lt (hM : Canonical M q) (hq : q ≤ 971) (hv : RoundsTo M q v) : v < 10 ^ (400 : ℤ) := by
  have hM : (M : ℚ) + 1 ≤ 2 ^ (53 : ℤ) := by exact_mod_cast hM.lt
  calc v ≤ (M + 1 / 2) * 2 ^ q := hv.upper
    _ ≤ 2 ^ (53 : ℤ) * 2 ^ q := mul_le_mul_of_nonneg_right (by linarith) (two_zpow_pos q).le
    _ = 2 ^ (53 + q) := (two_zpow_add _ _).symm
    _ ≤ 2 ^ (1080 : ℤ) := two_zpow_le_iff.2 (by omega)
    _ < 10 ^ (400 : ℤ) := two_pow_lt_ten_pow

theorem RoundsTo.gt (hM : Canonical M q) (hv : RoundsTo M q v) : 10 ^ (-400 : ℤ) < v := by
  have hone : (1 : ℚ) ≤ M := by exact_mod_cast hM.pos
  have hleast := hM.least
  calc (10 : ℚ) ^ (-400 : ℤ) < 2 ^ (-1080 : ℤ) := by
        rw [zpow_neg, zpow_neg]
        exact inv_strictAnti₀ (by positivity) two_pow_lt_ten_pow
    _ ≤ 2 ^ (-1 + q) := two_zpow_le_iff.2 (by omega)
    _ = 1 / 2 * 2 ^ q := by rw [two_zpow_add]; norm_num
    _ ≤ (M - if M = 2 ^ 52 ∧ -1074 < q then 1 / 4 else 1 / 2) * 2 ^ q :=
      mul_le_mul_of_nonneg_right (by split <;> linarith) (two_zpow_pos q).le
    _ ≤ v := hv.lower

/-- The order of magnitude of a number is that of the double. -/
theorem magnitude_bounds (hM : Canonical M q) (hq : q ≤ 971) (hn : 0 < n) (hv : RoundsTo M q (n * 10 ^ e)) :
    -400 ≤ (toString n).length + e ∧ (toString n).length + e ≤ 400 := by
  have hpos : (0 : ℚ) < 10 ^ e := by positivity
  have hupper : (n : ℚ) < 10 ^ ((toString n).length : ℤ) := by
    rw [zpow_natCast]
    exact_mod_cast lt_pow_length n
  have hlower : (10 : ℚ) ^ (((toString n).length - 1 : ℕ) : ℤ) ≤ n := by
    rw [zpow_natCast]
    exact_mod_cast pow_length_le hn
  have hlow : (10 : ℚ) ^ (-400 : ℤ) < 10 ^ ((toString n).length + e) := by
    rw [ten_zpow_add]
    exact (hv.gt hM).trans (mul_lt_mul_of_pos_right hupper hpos)
  have hhigh : (10 : ℚ) ^ ((((toString n).length - 1 : ℕ) : ℤ) + e) < 10 ^ (400 : ℤ) := by
    rw [ten_zpow_add]
    exact (mul_le_mul_of_nonneg_right hlower hpos.le).trans_lt (hv.lt hM hq)
  rw [ten_zpow_lt_iff] at hlow hhigh
  omega

/-- A decimal number between the midpoints of a double reads as that double. -/
theorem toFloat_is (hM : Canonical M q) (hq : q ≤ 971) (hn : 0 < n) (hv : RoundsTo M q (n * 10 ^ e)) :
    Is (toFloat n e) M q := by
  obtain ⟨hlow, hhigh⟩ := magnitude_bounds hM hq hn hv
  unfold toFloat
  simp only
  rw [if_neg (by omega), if_neg (by omega)]
  by_cases hfast : n < 2 ^ 53 ∧ e.natAbs ≤ 22
  · refine ofScientific_fast hM hq hn hfast.1 hfast.2 (roundsTo_congr ?_ hv)
    by_cases he : e < 0
    · rw [if_pos (decide_eq_true he), div_eq_mul_inv, ← zpow_natCast, ← zpow_neg]
      congr 2
      omega
    · rw [if_neg (by simpa using he), ← zpow_natCast]
      congr 2
      omega
  · have hlog : (toString n).length - 1 ≤ n.log2 := (Nat.le_log2 hn.ne').2
      ((Nat.pow_le_pow_left (by norm_num) _).trans (pow_length_le hn))
    have hsign : (if decide (e < 0) = true then Int.negOfNat e.natAbs else Int.ofNat e.natAbs) = e := by
      by_cases he : e < 0
      · rw [if_pos (decide_eq_true he), Int.negOfNat_eq, Int.ofNat_eq_natCast]
        omega
      · rw [if_neg (by simpa using he), Int.ofNat_eq_natCast]
        omega
    unfold Float.ofScientific
    rw [dif_neg hfast]
    simp only [hsign]
    unfold Float.Model.ofScientific
    rw [ofScientific_slow hM hn (by omega) (by omega) hv]
    exact is_pack hM hq

end TaskFleet.Decimal
