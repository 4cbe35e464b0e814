/-
  TaskFleet.Proofs.Decimal.Rounding — which exact numbers a double is what they round to.

  Doubles are multiplied and divided exactly as far as a mantissa with two further bits can tell, and
  rounded afterwards. The two bits say on which side of the midpoint the exact number lies
  (`Stands`), and no shift forgets that (`Stands.shiftRight`). So whatever lies between the midpoints
  of a double rounds to it (`roundWithAccuracy_eq`); just below a power of two that takes a second
  shift.
-/

import Mathlib
import TaskFleet.Decimal.Shortest

namespace TaskFleet.Decimal

open Float.Model (Format totalExponent)
open Float.Model.UnpackedFloat

variable {em : ExtendedMantissa} {acc : Accuracy} {m r r' M : ℕ} {e q T : ℤ} {t v : ℚ} {sign : Sign}

/-! ## Mantissas with two further bits -/

/-- How far a mantissa and its two further bits determine the exact number they stand for. -/
def Stands (em : ExtendedMantissa) (t : ℚ) : Prop :=
  match em.roundBit, em.stickyBit with
  | false, false => t = em.mantissa
  | false, true => em.mantissa < t ∧ t < em.mantissa + 1 / 2
  | true, false => t = em.mantissa + 1 / 2
  | true, true => em.mantissa + 1 / 2 < t ∧ t < em.mantissa + 1

theorem Stands.floor (h : Stands em t) : em.mantissa ≤ t ∧ t < em.mantissa + 1 := by
  obtain ⟨m, roundBit, stickyBit⟩ := em
  cases roundBit <;> cases stickyBit <;> simp only [Stands] at h <;> constructor <;> linarith

theorem Stands.shiftRightOne (h : Stands em t) : Stands em.shiftRightOne (t / 2) := by
  obtain ⟨m, roundBit, stickyBit⟩ := em
  have hm : ((m % 2 : ℕ) : ℚ) + 2 * ((m / 2 : ℕ) : ℚ) = m := by exact_mod_cast Nat.mod_add_div m 2
  rcases Nat.mod_two_eq_zero_or_one m with hbit | hbit <;> rw [hbit] at hm <;> push_cast at hm <;>
    cases roundBit <;> cases stickyBit <;>
    simp only [Stands, ExtendedMantissa.shiftRightOne, hbit] at h ⊢ <;>
    simp <;> (try constructor) <;> linarith

theorem Stands.shiftRight (h : Stands em t) (n : ℕ) : Stands (em >>> n) (t / 2 ^ n) := by
  change Stands (n.repeat ExtendedMantissa.shiftRightOne em) _
  induction n with
  | zero => simpa [Nat.repeat] using h
  | succ n ih =>
    rw [Nat.repeat, pow_succ, ← div_div]
    exact ih.shiftRightOne

/-! ## The nearest whole number -/

/-- The whole number nearest to `t`, the even one of two. -/
structure Nearest (t : ℚ) (r : ℕ) : Prop where
  lower : r - 1 / 2 ≤ t
  upper : t ≤ r + 1 / 2
  tie : t = r - 1 / 2 ∨ t = r + 1 / 2 → r % 2 = 0

theorem Nearest.unique (h : Nearest t r) (h' : Nearest t r') : r = r' := by
  have hle : (r : ℚ) ≤ r' + 1 := by linarith [h.lower, h'.upper]
  have hge : (r' : ℚ) ≤ r + 1 := by linarith [h'.lower, h.upper]
  have hle : r ≤ r' + 1 := by exact_mod_cast hle
  have hge : r' ≤ r + 1 := by exact_mod_cast hge
  by_contra hne
  -- neighbours can only both be nearest to the midpoint, and one of them is odd
  rcases Nat.lt_or_gt_of_ne hne with hlt | hgt
  · obtain rfl : r' = r + 1 := by omega
    have hmid : t = r + 1 / 2 := by
      have hlow := h'.lower
      push_cast at hlow
      linarith [h.upper]
    have heven := h.tie (.inr hmid)
    have heven' := h'.tie (.inl (by push_cast; linarith))
    omega
  · obtain rfl : r = r' + 1 := by omega
    have hmid : t = r' + 1 / 2 := by
      have hlow := h.lower
      push_cast at hlow
      linarith [h'.upper]
    have heven := h'.tie (.inr hmid)
    have heven' := h.tie (.inl (by push_cast; linarith))
    omega

theorem Stands.nearest (h : Stands em t) : Nearest t em.roundedMantissa := by
  obtain ⟨m, roundBit, stickyBit⟩ := em
  cases roundBit <;> cases stickyBit <;> simp only [Stands] at h <;>
    simp only [ExtendedMantissa.roundedMantissa, ExtendedMantissa.accuracy, Accuracy.roundToNearestEven]
  · exact ⟨by linarith, by linarith, by rintro (h' | h') <;> linarith⟩
  · exact ⟨by linarith, by linarith, by rintro (h' | h') <;> linarith⟩
  · rcases Nat.mod_two_eq_zero_or_one m with hbit | hbit <;> rw [hbit]
    · exact ⟨by push_cast; linarith, by push_cast; linarith, fun _ => by omega⟩
    · exact ⟨by push_cast; linarith, by push_cast; linarith, fun _ => by omega⟩
  · exact ⟨by push_cast; linarith, by push_cast; linarith, by push_cast; rintro (h' | h') <;> linarith⟩

/-! ## Doubles in their own form -/

/-- The parts of a positive finite double as they are stored: 53 bits, or fewer next to zero. -/
structure Canonical (m : ℕ) (q : ℤ) : Prop where
  pos : 0 < m
  lt : m < 2 ^ 53
  least : -1074 ≤ q
  full : 2 ^ 52 ≤ m ∨ q = -1074

/-- The exact numbers that round to `m · 2^q`. Below a power of two the next double is only half as far. -/
structure RoundsTo (m : ℕ) (q : ℤ) (v : ℚ) : Prop where
  lower : (m - if m = 2 ^ 52 ∧ -1074 < q then 1 / 4 else 1 / 2) * 2 ^ q ≤ v
  upper : v ≤ (m + 1 / 2) * 2 ^ q
  /-- The midpoints round to even mantissas. -/
  tie : v = (m - 1 / 2) * 2 ^ q ∨ v = (m + 1 / 2) * 2 ^ q → m % 2 = 0

/-- The exponent that a mantissa is shifted to. -/
def target (m : ℕ) (e : ℤ) : ℤ := max (m.log2 + e - 52) (-1074)

theorem targetExponent_eq (m : ℕ) (e : ℤ) : Format.binary64.targetExponent (totalExponent m e) = target m e := by
  simp only [Format.targetExponent, totalExponent, Format.mantissaBits, Format.minExponent, target]
  norm_num
  omega

theorem shiftToTargetExponent_eq (h : e ≤ target m e) :
    shiftToTargetExponent .binary64 m e acc =
      (ExtendedMantissa.ofMantissaAndAccuracy m acc >>> (target m e - e).toNat, target m e) := by
  simp only [shiftToTargetExponent, shiftToExponent, targetExponent_eq, Prod.mk.injEq, true_and]
  omega

theorem two_zpow_pos (q : ℤ) : (0 : ℚ) < 2 ^ q := by positivity

/-- A mantissa in its own form stays as it is. -/
theorem Canonical.target_eq (h : Canonical m q) : target m q = q := by
  have hlog : m.log2 < 53 := (Nat.log2_lt h.pos.ne').2 h.lt
  have hleast := h.least
  unfold target
  rcases h.full with hfull | rfl
  · have hge : 52 ≤ m.log2 := (Nat.le_log2 h.pos.ne').2 hfull
    omega
  · omega

/-- The exact number lies where the mantissa says. -/
theorem bounds_of_stands (h : Stands (.ofMantissaAndAccuracy m acc) (v / 2 ^ e)) : m * 2 ^ e ≤ v ∧ v < (m + 1) * 2 ^ e := by
  have hm : (ExtendedMantissa.ofMantissaAndAccuracy m acc).mantissa = m := by
    cases acc with
    | exact => rfl
    | inexact o => cases o <;> rfl
  obtain ⟨hlower, hupper⟩ := h.floor
  rw [hm] at hlower hupper
  exact ⟨(le_div_iff₀ (two_zpow_pos e)).1 hlower, (div_lt_iff₀ (two_zpow_pos e)).1 hupper⟩

theorem two_zpow_le_iff {a b : ℤ} : (2 : ℚ) ^ a ≤ 2 ^ b ↔ a ≤ b := zpow_le_zpow_iff_right₀ (by norm_num)

theorem two_zpow_lt_iff {a b : ℤ} : (2 : ℚ) ^ a < 2 ^ b ↔ a < b := zpow_lt_zpow_iff_right₀ (by norm_num)

theorem two_zpow_add (a b : ℤ) : (2 : ℚ) ^ (a + b) = 2 ^ a * 2 ^ b := zpow_add₀ (by norm_num) a b

/-- The binary order of magnitude of an exact number decides about the exponent. -/
theorem target_le (hm : m * 2 ^ e ≤ v) (he : e ≤ target m e) (hq : -1074 ≤ q) (hv : v < 2 ^ (53 + q)) : target m e ≤ q := by
  unfold target at he ⊢
  by_cases hzero : m = 0
  · subst hzero
    simp only [Nat.log2_zero] at he ⊢
    omega
  · have hlog : ((2 ^ m.log2 : ℕ) : ℚ) ≤ m := by exact_mod_cast Nat.log2_self_le hzero
    have hlt : (2 : ℚ) ^ ((m.log2 : ℤ) + e) < 2 ^ (53 + q) := by
      rw [two_zpow_add, zpow_natCast]
      push_cast at hlog
      exact lt_of_le_of_lt (le_trans (mul_le_mul_of_nonneg_right hlog (two_zpow_pos e).le) hm) hv
    rw [two_zpow_lt_iff] at hlt
    omega

theorem le_target (hm : v < (m + 1) * 2 ^ e) (hv : 2 ^ (52 + q) ≤ v) : q ≤ target m e := by
  have hlog : (m : ℚ) + 1 ≤ 2 ^ (m.log2 + 1) := by exact_mod_cast Nat.lt_log2_self
  have hlt : (2 : ℚ) ^ (52 + q) < 2 ^ (((m.log2 + 1 : ℕ) : ℤ) + e) := by
    rw [two_zpow_add _ e, zpow_natCast]
    exact lt_of_le_of_lt hv (lt_of_lt_of_le hm (mul_le_mul_of_nonneg_right hlog (two_zpow_pos e).le))
  rw [two_zpow_lt_iff] at hlt
  unfold target
  omega

/-- Between the midpoints, seen from the double itself. -/
theorem RoundsTo.nearest (h : RoundsTo m q v) (hv : m = 2 ^ 52 ∧ -1074 < q → m * 2 ^ q ≤ v) : Nearest (v / 2 ^ q) m := by
  have hpos := two_zpow_pos q
  refine ⟨?_, (div_le_iff₀ hpos).2 h.upper, fun htie => h.tie ?_⟩
  · rw [le_div_iff₀ hpos]
    by_cases hlop : m = 2 ^ 52 ∧ -1074 < q
    · have hle := hv hlop
      linarith
    · have hlower := h.lower
      rwa [if_neg hlop] at hlower
  · rcases htie with htie | htie
    · exact .inl ((div_eq_iff hpos.ne').1 htie)
    · exact .inr ((div_eq_iff hpos.ne').1 htie)

/-- The first shift keeps what the number is, in the places of the target. -/
theorem stands_shifted (h : Stands (.ofMantissaAndAccuracy m acc) (v / 2 ^ e)) (he : e ≤ target m e) :
    Stands (ExtendedMantissa.ofMantissaAndAccuracy m acc >>> (target m e - e).toNat) (v / 2 ^ target m e) := by
  have hshift := h.shiftRight (target m e - e).toNat
  have hpow : (2 : ℚ) ^ e * 2 ^ (target m e - e).toNat = 2 ^ target m e := by
    rw [← zpow_natCast, ← two_zpow_add, Int.toNat_of_nonneg (by omega)]
    congr 1
    omega
  rwa [div_div, hpow] at hshift

/-- The first shift does not go beyond the double's own exponent. -/
theorem target_le_of_roundsTo (hM : Canonical M q) (hv : RoundsTo M q v) (hlower : m * 2 ^ e ≤ v) (he : e ≤ target m e) :
    target m e ≤ q := by
  refine target_le hlower he hM.least ?_
  have hlt : (M : ℚ) + 1 ≤ 2 ^ 53 := by exact_mod_cast hM.lt
  have hpos := two_zpow_pos q
  have hup := hv.upper
  rw [two_zpow_add]
  norm_num at hlt ⊢
  nlinarith

/-- Unless the number lies just below a power of two, the first shift reaches that exponent. -/
theorem le_target_of_roundsTo (hM : Canonical M q) (hv : RoundsTo M q v) (hbelow : ¬(M = 2 ^ 52 ∧ -1074 < q ∧ v < M * 2 ^ q))
    (hupper : v < (m + 1) * 2 ^ e) : q ≤ target m e := by
  by_cases hq : q = -1074
  · rw [hq]
    exact le_max_right _ _
  · refine le_target hupper ?_
    have hleast := hM.least
    have hfull : 2 ^ 52 ≤ M := hM.full.resolve_right hq
    rw [two_zpow_add]
    by_cases hpow : M = 2 ^ 52
    · have hge : (M : ℚ) * 2 ^ q ≤ v := le_of_not_gt fun hlt => hbelow ⟨hpow, by omega, hlt⟩
      rw [hpow] at hge
      exact_mod_cast hge
    · have hlower := hv.lower
      rw [if_neg fun hlop => hpow hlop.1] at hlower
      have hM : (2 : ℚ) ^ 52 + 1 ≤ M := by exact_mod_cast Nat.lt_of_le_of_ne hfull (Ne.symm hpow)
      have hpow52 : (2 : ℚ) ^ (52 : ℤ) = 2 ^ 52 := by norm_num
      refine le_trans (mul_le_mul_of_nonneg_right ?_ (two_zpow_pos q).le) hlower
      linarith

/-- Just below a power of two the number rounds up to it, one place further down. -/
theorem nearest_below (hv : RoundsTo (2 ^ 52) q v) (hq : -1074 < q) (hlt : v < (2 ^ 52 : ℕ) * 2 ^ q) :
    Nearest (v / 2 ^ (q - 1)) (2 ^ 53) := by
  have hpos := two_zpow_pos (q - 1)
  have hdouble : (2 : ℚ) ^ q = 2 * 2 ^ (q - 1) := by
    rw [← zpow_one_add₀ (by norm_num)]
    congr 1
    omega
  have hlower := hv.lower
  rw [if_pos ⟨rfl, hq⟩, hdouble] at hlower
  rw [hdouble] at hlt
  push_cast at hlower hlt
  refine ⟨?_, ?_, fun _ => by norm_num⟩
  · rw [le_div_iff₀ hpos]
    push_cast
    linarith
  · rw [div_le_iff₀ hpos]
    push_cast
    linarith

theorem target_eq_below (hv : RoundsTo (2 ^ 52) q v) (hq : -1074 < q) (hlt : v < (2 ^ 52 : ℕ) * 2 ^ q)
    (hlower : m * 2 ^ e ≤ v) (hupper : v < (m + 1) * 2 ^ e) (he : e ≤ target m e) : target m e = q - 1 := by
  have hpos := two_zpow_pos q
  refine le_antisymm (target_le hlower he (by omega) ?_) (le_target hupper ?_)
  · have hexp : 53 + (q - 1) = 52 + q := by omega
    rw [hexp, two_zpow_add]
    exact_mod_cast hlt
  · have hexp : 52 + (q - 1) = 51 + q := by omega
    have hlow := hv.lower
    rw [if_pos ⟨rfl, hq⟩] at hlow
    push_cast at hlow
    rw [hexp, two_zpow_add]
    norm_num at hlow ⊢
    linarith

/-- An exact number, given with two further bits, is rounded to the double between whose midpoints it lies. -/
theorem roundWithAccuracy_eq (hM : Canonical M q) (hv : RoundsTo M q v) (he : e ≤ target m e)
    (h : Stands (.ofMantissaAndAccuracy m acc) (v / 2 ^ e)) :
    roundWithAccuracy .binary64 sign m e acc = .finite sign M q hM.pos := by
  obtain ⟨hlower, hupper⟩ := bounds_of_stands h
  have hround := (stands_shifted h he).nearest
  unfold roundWithAccuracy
  rw [shiftToTargetExponent_eq he]
  simp only
  by_cases hbelow : M = 2 ^ 52 ∧ -1074 < q ∧ v < M * 2 ^ q
  · obtain ⟨rfl, hq, hlt⟩ := hbelow
    have hT := target_eq_below hv hq hlt hlower hupper he
    have hr : (ExtendedMantissa.ofMantissaAndAccuracy m acc >>> (target m e - e).toNat).roundedMantissa = 2 ^ 53 := by
      rw [hT] at hround ⊢
      exact hround.unique (nearest_below hv hq hlt)
    -- the carry makes one bit too many, which the second shift takes away
    have hcarry : target (2 ^ 53) (q - 1) = q := by
      have hleast := hM.least
      unfold target
      rw [Nat.log2_two_pow]
      omega
    have hone : (q - (q - 1)).toNat = 1 := by omega
    rw [hr, hT, shiftToTargetExponent_eq (by omega), hcarry, hone]
    rfl
  · have hT : target m e = q :=
      le_antisymm (target_le_of_roundsTo hM hv hlower he) (le_target_of_roundsTo hM hv hbelow hupper)
    have hr : (ExtendedMantissa.ofMantissaAndAccuracy m acc >>> (target m e - e).toNat).roundedMantissa = M := by
      rw [hT] at hround ⊢
      exact hround.unique (hv.nearest fun hlop => le_of_not_gt fun hlt => hbelow ⟨hlop.1, hlop.2, hlt⟩)
    have hsame : (q - q).toNat = 0 := by omega
    rw [hr, hT, shiftToTargetExponent_eq hM.target_eq.ge, hM.target_eq, hsame]
    exact dif_neg hM.pos.ne'

/-! ## Products and quotients -/

section

variable {m₁ m₂ : ℕ} {e₁ e₂ : ℤ} (h₁ : 0 < m₁) (h₂ : 0 < m₂)

/-- A product of doubles, rounded once. -/
theorem mul_eq (hM : Canonical M q) (hv : RoundsTo M q (m₁ * 2 ^ e₁ * (m₂ * 2 ^ e₂))) (hbig : 2 ^ 52 ≤ m₁ * m₂) :
    mul .binary64 (.finite .positive m₁ e₁ h₁) (.finite .positive m₂ e₂ h₂) = .finite .positive M q hM.pos := by
  have hlog : 52 ≤ (m₁ * m₂).log2 := (Nat.le_log2 (Nat.mul_pos h₁ h₂).ne').2 hbig
  refine roundWithAccuracy_eq hM hv ?_ ?_
  · unfold target
    omega
  · have hexact : (m₁ * 2 ^ e₁ * (m₂ * 2 ^ e₂) : ℚ) / 2 ^ (e₁ + e₂) = (m₁ * m₂ : ℕ) := by
      rw [div_eq_iff (two_zpow_pos _).ne', two_zpow_add]
      push_cast
      ring
    show Stands _ ((m₁ * 2 ^ e₁ * (m₂ * 2 ^ e₂) : ℚ) / 2 ^ (e₁ + e₂))
    rw [hexact]
    rfl

/-- What is left of a division says where the quotient lies. -/
theorem stands_quotient (a : ℕ) {b : ℕ} (hb : 0 < b) :
    Stands (.ofMantissaAndAccuracy (a / b) (accuracyOfFraction (a % b) b)) ((a : ℚ) / b) := by
  have hbq : (0 : ℚ) < b := by exact_mod_cast hb
  have hdivmod : (a : ℚ) / b = (a / b : ℕ) + (a % b : ℕ) / b := by
    have hsum : ((a / b : ℕ) : ℚ) * b + (a % b : ℕ) = a := by exact_mod_cast Nat.div_add_mod' a b
    rw [div_eq_iff hbq.ne', add_mul, div_mul_cancel₀ _ hbq.ne', hsum]
  have hlt : ((a % b : ℕ) : ℚ) / b < 1 := by
    rw [div_lt_one hbq]
    exact_mod_cast Nat.mod_lt a hb
  rw [hdivmod]
  unfold accuracyOfFraction
  split
  · next hzero =>
    rw [hzero]
    simp [Stands, ExtendedMantissa.ofMantissaAndAccuracy]
  · next hpos =>
    have hpos : (0 : ℚ) < (a % b : ℕ) / b := div_pos (by exact_mod_cast Nat.pos_of_ne_zero hpos) hbq
    rcases Nat.lt_trichotomy (2 * (a % b)) b with hcmp | hcmp | hcmp
    · have hhalf : ((a % b : ℕ) : ℚ) / b < 1 / 2 := by
        rw [div_lt_div_iff₀ hbq (by norm_num)]
        exact_mod_cast by omega
      rw [Nat.compare_eq_lt.2 hcmp]
      show ((a / b : ℕ) : ℚ) < _ ∧ _ < ((a / b : ℕ) : ℚ) + 1 / 2
      constructor <;> linarith
    · have hhalf : ((a % b : ℕ) : ℚ) / b = 1 / 2 := by
        rw [div_eq_div_iff hbq.ne' (by norm_num)]
        exact_mod_cast by omega
      rw [Nat.compare_eq_eq.2 hcmp, hhalf]
      rfl
    · have hhalf : 1 / 2 < ((a % b : ℕ) : ℚ) / b := by
        rw [div_lt_div_iff₀ (by norm_num) hbq]
        exact_mod_cast by omega
      rw [Nat.compare_eq_gt.2 hcmp]
      show ((a / b : ℕ) : ℚ) + 1 / 2 < _ ∧ _ < ((a / b : ℕ) : ℚ) + 1
      constructor <;> linarith

/-- A dividend that is long enough leaves a quotient of 53 bits. -/
theorem le_log2_quotient {a b k : ℕ} (ha : 0 < a) (hb : 0 < b) (hbits : 53 + b.log2 ≤ a.log2 + k) :
    52 ≤ (a <<< k / b).log2 := by
  have hquot : 2 ^ 52 ≤ a <<< k / b := by
    rw [Nat.le_div_iff_mul_le hb, Nat.shiftLeft_eq]
    calc 2 ^ 52 * b ≤ 2 ^ 52 * 2 ^ (b.log2 + 1) := Nat.mul_le_mul_left _ Nat.lt_log2_self.le
      _ = 2 ^ (53 + b.log2) := by rw [← Nat.pow_add]; congr 1; omega
      _ ≤ 2 ^ (a.log2 + k) := Nat.pow_le_pow_right (by norm_num) hbits
      _ = 2 ^ a.log2 * 2 ^ k := Nat.pow_add ..
      _ ≤ a * 2 ^ k := Nat.mul_le_mul_right _ (Nat.log2_self_le ha.ne')
  exact (Nat.le_log2 (by omega)).2 hquot

/-- A quotient of doubles, rounded once. -/
theorem div_eq (hM : Canonical M q) (hv : RoundsTo M q (m₁ * 2 ^ e₁ / (m₂ * 2 ^ e₂))) :
    div .binary64 (.finite .positive m₁ e₁ h₁) (.finite .positive m₂ e₂ h₂) = .finite .positive M q hM.pos := by
  have hT : Format.binary64.targetExponent (totalExponent m₁ e₁ - totalExponent m₂ e₂) =
      max (m₁.log2 + e₁ - (m₂.log2 + e₂) - 53) (-1074) := by
    simp only [Format.targetExponent, totalExponent, Format.mantissaBits, Format.minExponent]
    norm_num
    omega
  simp only [div, divCore, hT]
  generalize hτ : min (e₁ - e₂) (max (m₁.log2 + e₁ - (m₂.log2 + e₂) - 53) (-1074)) = τ
  have hshift : ((e₁ - e₂ - τ).toNat : ℤ) = e₁ - e₂ - τ := by omega
  refine roundWithAccuracy_eq hM hv ?_ ?_
  · by_cases hsmall : τ ≤ -1074
    · unfold target
      omega
    · have hlog := le_log2_quotient h₁ h₂ (k := (e₁ - e₂ - τ).toNat) (by omega)
      unfold target
      omega
  · have hquot : (m₁ * 2 ^ e₁ / (m₂ * 2 ^ e₂) : ℚ) / 2 ^ τ = ((m₁ <<< (e₁ - e₂ - τ).toNat : ℕ) : ℚ) / m₂ := by
      have hm₂ : (m₂ : ℚ) ≠ 0 := by exact_mod_cast h₂.ne'
      have hpow : (2 : ℚ) ^ (e₁ - e₂ - τ).toNat * (2 ^ e₂ * 2 ^ τ) = 2 ^ e₁ := by
        rw [← zpow_natCast, hshift, ← two_zpow_add, ← two_zpow_add]
        congr 1
        omega
      rw [div_div, div_eq_div_iff (by positivity) hm₂, Nat.shiftLeft_eq, ← hpow]
      push_cast
      ring
    rw [hquot]
    exact stands_quotient _ h₂

end

end TaskFleet.Decimal
