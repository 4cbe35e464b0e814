/-
  TaskFleet.Proofs.Decimal.Shortest — the shortest decimal number of a double reads as that double.

  The search tries one grid of decimal numbers after the other and stops at the first number between
  the midpoints of the double. Every double is on the grid of `10^-1074` itself, so it always stops
  (`shortest_holds`).
-/

import TaskFleet.Proofs.Decimal.Readings

namespace TaskFleet.Decimal

variable {b : Binary} {g : ℤ} {n grids : ℕ}

namespace Binary

/-! ## Points of a grid -/

theorem weights_pos (b : Binary) (g : ℤ) : 0 < (b.weights g).1 ∧ 0 < (b.weights g).2 :=
  ⟨Nat.mul_pos (Nat.pow_pos (by norm_num)) (Nat.pow_pos (by norm_num)),
    Nat.mul_pos (Nat.pow_pos (by norm_num)) (Nat.pow_pos (by norm_num))⟩

/-- The weights are in the proportion of a quarter of the last binary place to a point of the grid. -/
theorem weights_eq (b : Binary) (g : ℤ) :
    ((b.weights g).1 : ℚ) * 10 ^ g = (b.weights g).2 * 2 ^ (b.exponent - 2) := by
  have hten : (10 : ℚ) ^ (-g).toNat * 10 ^ g = 10 ^ g.toNat := by
    rw [← zpow_natCast, ← zpow_natCast, ← ten_zpow_add]
    congr 1
    omega
  have htwo : (2 : ℚ) ^ (-(b.exponent - 2)).toNat * 2 ^ (b.exponent - 2) = 2 ^ (b.exponent - 2).toNat := by
    rw [← zpow_natCast, ← zpow_natCast, ← two_zpow_add]
    congr 1
    omega
  simp only [weights, Nat.pow_eq]
  push_cast
  rw [mul_assoc, hten, ← htwo]
  ring

/-- Comparing in whole numbers is comparing the numbers themselves. -/
theorem cast_eq (b : Binary) (g : ℤ) (k n : ℕ) : ∃ c : ℚ, 0 < c ∧
    ((k * (b.weights g).1 : ℕ) : ℚ) = c * (k * 2 ^ (b.exponent - 2)) ∧ ((n * (b.weights g).2 : ℕ) : ℚ) = c * (n * 10 ^ g) := by
  have hpoint : (0 : ℚ) < (b.weights g).2 := by exact_mod_cast (b.weights_pos g).2
  have hten : (0 : ℚ) < 10 ^ g := by positivity
  have heq := b.weights_eq g
  refine ⟨(b.weights g).2 / 10 ^ g, div_pos hpoint hten, ?_, ?_⟩
  · push_cast
    rw [div_mul_eq_mul_div, eq_div_iff hten.ne', mul_assoc, heq]
    ring
  · push_cast
    field_simp

theorem le_place_iff {k : ℕ} : k * (b.weights g).1 ≤ n * (b.weights g).2 ↔ (k : ℚ) * 2 ^ (b.exponent - 2) ≤ n * 10 ^ g := by
  obtain ⟨c, hc, hk, hn⟩ := b.cast_eq g k n
  rw [← Nat.cast_le (α := ℚ), hk, hn, mul_le_mul_iff_of_pos_left hc]

theorem place_le_iff {k : ℕ} : n * (b.weights g).2 ≤ k * (b.weights g).1 ↔ (n : ℚ) * 10 ^ g ≤ k * 2 ^ (b.exponent - 2) := by
  obtain ⟨c, hc, hk, hn⟩ := b.cast_eq g k n
  rw [← Nat.cast_le (α := ℚ), hk, hn, mul_le_mul_iff_of_pos_left hc]

theorem two_zpow_exponent (b : Binary) : (2 : ℚ) ^ b.exponent = 4 * 2 ^ (b.exponent - 2) := by
  have hexp : b.exponent = 2 + (b.exponent - 2) := by omega
  rw [hexp, two_zpow_add, add_sub_cancel_left]
  norm_num

/-- The lower end, in quarters of the last place. -/
theorem low_eq (hpos : 0 < b.mantissa) (hlop : b.isLopsided = true ↔ b.mantissa = 2 ^ 52 ∧ -1074 < b.exponent) :
    (b.low : ℚ) * 2 ^ (b.exponent - 2) =
      (b.mantissa - if b.mantissa = 2 ^ 52 ∧ -1074 < b.exponent then 1 / 4 else 1 / 2) * 2 ^ b.exponent := by
  rw [low, two_zpow_exponent]
  by_cases hl : b.isLopsided = true
  · rw [if_pos hl, if_pos (hlop.1 hl), Nat.cast_sub (by omega)]
    push_cast
    ring
  · rw [if_neg hl, if_neg fun h => hl (hlop.2 h), Nat.cast_sub (by omega)]
    push_cast
    ring

theorem high_eq (b : Binary) : (b.high : ℚ) * 2 ^ (b.exponent - 2) = (b.mantissa + 1 / 2) * 2 ^ b.exponent := by
  rw [two_zpow_exponent, high]
  push_cast
  ring

/-- What the whole-number test says: the point lies between the midpoints. -/
theorem roundsTo_of_holds (hb : Canonical b.mantissa b.exponent)
    (hlop : b.isLopsided = true ↔ b.mantissa = 2 ^ 52 ∧ -1074 < b.exponent) (h : b.holds g n = true) :
    RoundsTo b.mantissa b.exponent (n * 10 ^ g) := by
  have hlow := low_eq hb.pos hlop
  have hhigh := high_eq b
  unfold holds at h
  simp only at h
  split at h
  · next heven =>
    simp only [Bool.and_eq_true, decide_eq_true_eq] at h
    exact ⟨hlow ▸ le_place_iff.1 h.1, hhigh ▸ place_le_iff.1 h.2, fun _ => heven⟩
  · next hodd =>
    simp only [Bool.and_eq_true, decide_eq_true_eq] at h
    have hlower : ¬(n : ℚ) * 10 ^ g ≤ b.low * 2 ^ (b.exponent - 2) := fun hle => not_le.2 h.1 (place_le_iff.2 hle)
    have hupper : ¬(b.high : ℚ) * 2 ^ (b.exponent - 2) ≤ n * 10 ^ g := fun hle => not_le.2 h.2 (le_place_iff.2 hle)
    rw [hlow] at hlower
    rw [hhigh] at hupper
    -- an odd mantissa is no power of two
    have hnot : ¬(b.mantissa = 2 ^ 52 ∧ -1074 < b.exponent) := fun hpower => hodd (by rw [hpower.1]; norm_num)
    rw [if_neg hnot] at hlower
    refine ⟨by rw [if_neg hnot]; exact (not_le.1 hlower).le, (not_le.1 hupper).le, ?_⟩
    rintro (heq | heq)
    · exact absurd heq.le hlower
    · exact absurd heq.ge hupper

theorem holds_of_pointOn? (h : b.pointOn? g = some n) : b.holds g n = true := by
  unfold pointOn? at h
  simp only at h
  split at h
  · next h₁ h₂ =>
    cases h
    split
    · exact h₁
    · exact h₂
  · next h₁ _ =>
    cases h
    exact h₁
  · next _ h₂ =>
    cases h
    exact h₂
  · cases h

/-- The search stops at the first grid with a point. -/
theorem search_eq (h : ∃ k < grids, b.pointOn? (g - k) ≠ none) :
    ∃ n k, k < grids ∧ b.search grids g = some (n, g - k) ∧ b.holds (g - k) n = true := by
  induction grids generalizing g with
  | zero =>
    obtain ⟨k, hk, -⟩ := h
    omega
  | succ grids ih =>
    obtain ⟨k, hk, hpoint⟩ := h
    unfold search
    split
    · next n hn => exact ⟨n, 0, by omega, by simp, by simpa using holds_of_pointOn? hn⟩
    · next hn =>
      have hk0 : k ≠ 0 := by
        rintro rfl
        exact hpoint (by simpa using hn)
      have hprev : ∃ k < grids, b.pointOn? (g - 1 - k) ≠ none := by
        refine ⟨k - 1, by omega, ?_⟩
        have heq : g - 1 - ((k - 1 : ℕ) : ℤ) = g - k := by omega
        rwa [heq]
      obtain ⟨n, k, hk, hsearch, hholds⟩ := ih hprev
      have heq : g - 1 - (k : ℤ) = g - (k + 1 : ℕ) := by omega
      rw [heq] at hsearch hholds
      exact ⟨n, k + 1, by omega, hsearch, hholds⟩

theorem two_pow_dvd {a k : ℕ} (h : k ≤ a + 2) : 2 ^ k ∣ 4 * 10 ^ a := by
  refine (Nat.pow_dvd_pow 2 h).trans ?_
  rw [Nat.pow_add, Nat.mul_comm]
  exact Nat.mul_dvd_mul (by norm_num) (pow_dvd_pow_of_dvd (by norm_num) a)

theorem weights_neg (b : Binary) (a : ℕ) :
    b.weights (-a) = (2 ^ (b.exponent - 2).toNat * 10 ^ a, 2 ^ (-(b.exponent - 2)).toNat) := by
  simp [weights]

/-- A double whose last place is not finer than `10^-a` is itself a point of that grid. -/
theorem pointOn?_exact {a : ℕ} (hpos : 0 < b.mantissa) (hleast : -(a : ℤ) ≤ b.exponent) : b.pointOn? (-a) ≠ none := by
  obtain ⟨hquarter, hpoint⟩ := b.weights_pos (-a)
  have hdvd : (b.weights (-a)).2 ∣ 4 * b.mantissa * (b.weights (-a)).1 := by
    have hexp : (-(b.exponent - 2)).toNat ≤ a + 2 := by omega
    have hten := (two_pow_dvd hexp).mul_left (b.mantissa * 2 ^ (b.exponent - 2).toNat)
    rw [weights_neg]
    refine hten.trans (dvd_of_eq ?_)
    ring
  have hplace := Nat.div_mul_cancel hdvd
  have hlow : b.low < 4 * b.mantissa := by
    unfold low
    split <;> omega
  have hhigh : 4 * b.mantissa < b.high := by
    unfold high
    omega
  have hholds : b.holds (-a) (4 * b.mantissa * (b.weights (-a)).1 / (b.weights (-a)).2) = true := by
    have hlower := Nat.mul_lt_mul_of_pos_right hlow hquarter
    have hupper := Nat.mul_lt_mul_of_pos_right hhigh hquarter
    unfold holds
    simp only [hplace]
    split <;> simp <;> omega
  unfold pointOn?
  simp only [hholds]
  split <;> simp_all

/-- The shortest decimal number of a double lies between its midpoints. -/
theorem shortest_holds (hpos : 0 < b.mantissa) (hleast : -1074 ≤ b.exponent) :
    b.holds b.shortest.2 b.shortest.1 = true := by
  have hfinest : b.pointOn? (coarsest - (1383 : ℕ)) ≠ none := pointOn?_exact (a := 1074) hpos hleast
  obtain ⟨n, k, -, hsearch, hholds⟩ := @search_eq b coarsest 1400 ⟨1383, by norm_num, hfinest⟩
  unfold shortest
  rw [hsearch]
  exact hholds

theorem shortest_pos (hpos : 0 < b.mantissa) (hleast : -1074 ≤ b.exponent) : 0 < b.shortest.1 := by
  have hholds := shortest_holds hpos hleast
  have hquarter := (b.weights_pos b.shortest.2).1
  have hlow : 0 < b.low := by
    unfold low
    split <;> omega
  have hplace := Nat.mul_pos hlow hquarter
  by_contra hzero
  rw [Nat.eq_zero_of_not_pos hzero] at hholds
  unfold holds at hholds
  simp only [Nat.zero_mul] at hholds
  split at hholds <;> simp only [Bool.and_eq_true, decide_eq_true_eq] at hholds <;> omega

end Binary

end TaskFleet.Decimal
