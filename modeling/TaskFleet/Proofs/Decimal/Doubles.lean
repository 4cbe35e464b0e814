/-
  TaskFleet.Proofs.Decimal.Doubles — the parts of a double.
-/

import TaskFleet.Proofs.Decimal.Rounding

namespace TaskFleet.Decimal

open Float.Model (Format UnpackedFloat)
open Float.Model.UnpackedFloat

variable {x : Float} {m M : ℕ} {e q : ℤ} {sign : Sign}

/-! ## Finite doubles -/

theorem toNat_implicit {f : ℕ} (v : BitVec f) : (1#1 ++ v).toNat = 2 ^ f + v.toNat := by
  rw [BitVec.toNat_append, ← Nat.shiftLeft_add_eq_or_of_lt v.isLt]
  simp [Nat.shiftLeft_eq]

theorem ofBitVec_toBitVec (sign : Sign) : Sign.ofBitVec sign.toBitVec = sign := by cases sign <;> rfl

/-- With all its 53 bits a double is stored by the 52 behind the first one. -/
theorem unpack_pack_normal (h : Canonical M q) (hq : q ≤ 971) (hfull : 2 ^ 52 ≤ M) :
    unpack .binary64 (pack .binary64 (.finite sign M q h.pos)) = .finite sign M q h.pos := by
  have hleast := h.least
  have hlt := h.lt
  have hlog : M.log2 = 52 := (Nat.log2_eq_iff h.pos.ne').2 ⟨hfull, hlt⟩
  have hbias : (Format.binary64.exponentBias : ℤ) = 1023 := rfl
  have hbits : Format.binary64.mantissaBits = 53 := rfl
  have hexp : (BitVec.ofNat 11 (q + 1023 + ((52 : ℕ) : ℤ)).toNat).toNat = (q + 1075).toNat := by
    rw [BitVec.toNat_ofNat, Nat.mod_eq_of_lt (by omega)]
    omega
  have hmantissa : (1#1 ++ BitVec.ofNat 52 M).toNat = M := by
    rw [toNat_implicit, BitVec.toNat_ofNat]
    omega
  have hpos : (BitVec.ofNat 11 (q + 1023 + ((52 : ℕ) : ℤ)).toNat) ≠ 0#11 := by
    intro heq
    rw [heq] at hexp
    change 0 = (q + 1075).toNat at hexp
    omega
  have hne : (BitVec.ofNat 11 (q + 1023 + ((52 : ℕ) : ℤ)).toNat) ≠ -1#11 := by
    intro heq
    rw [heq] at hexp
    change 2047 = (q + 1075).toNat at hexp
    omega
  unfold pack
  simp only [hbias, hbits]
  rw [if_neg (by omega), if_pos (by omega)]
  unfold unpack
  simp only [unpackMantissa_packComponents, unpackExponent_packComponents, unpackSign_packComponents, hne, hpos,
    ofBitVec_toBitVec, if_false, hexp, hmantissa, hbias]
  congr 1
  omega

/-- With fewer bits a double is stored as a multiple of the least one. -/
theorem unpack_pack_subnormal (h : Canonical M q) (hsub : M < 2 ^ 52) :
    unpack .binary64 (pack .binary64 (.finite sign M q h.pos)) = .finite sign M q h.pos := by
  have hlog : M.log2 < 52 := (Nat.log2_lt h.pos.ne').2 hsub
  have hq : q = -1074 := h.full.resolve_left (by omega)
  have hbias : (Format.binary64.exponentBias : ℤ) = 1023 := rfl
  have hbits : Format.binary64.mantissaBits = 53 := rfl
  have hmantissa : (BitVec.ofNat 52 M).toNat = M := by
    rw [BitVec.toNat_ofNat, Nat.mod_eq_of_lt hsub]
  have hne : BitVec.ofNat 52 M ≠ 0#52 := by
    intro heq
    rw [heq] at hmantissa
    change 0 = M at hmantissa
    exact h.pos.ne hmantissa
  have hexp : (0#11 : BitVec 11) ≠ -1#11 := by decide
  unfold pack
  simp only [hbias, hbits]
  rw [if_neg (by omega), if_neg (by omega)]
  unfold unpack
  simp only [unpackMantissa_packComponents, unpackExponent_packComponents, unpackSign_packComponents, hne, hexp,
    ofBitVec_toBitVec, if_false, if_true, dite_false, hmantissa, hbias, hq]
  rfl

/-- What is stored of a double in its own form is the double. -/
theorem unpack_pack (h : Canonical M q) (hq : q ≤ 971) :
    unpack .binary64 (pack .binary64 (.finite sign M q h.pos)) = .finite sign M q h.pos := by
  rcases le_or_gt (2 ^ 52) M with hfull | hsub
  · exact unpack_pack_normal h hq hfull
  · exact unpack_pack_subnormal h hsub

/-! ## The parts of a double -/

/-- The sign of a double, given its bits. -/
def signOf (bits : UInt64) : Sign := if bits < 0x8000000000000000 then .positive else .negative

theorem ofBits_subnormal {bits : ℕ} (h : bits / 2 ^ 52 % 2 ^ 11 = 0) :
    Binary.ofBits bits = ⟨bits % 2 ^ 52, -1074, false⟩ :=
  if_pos h

theorem ofBits_normal {bits : ℕ} (h : bits / 2 ^ 52 % 2 ^ 11 ≠ 0) : Binary.ofBits bits =
    ⟨2 ^ 52 + bits % 2 ^ 52, (bits / 2 ^ 52 % 2 ^ 11 : ℕ) - 1075,
      bits % 2 ^ 52 == 0 && 1 < bits / 2 ^ 52 % 2 ^ 11⟩ :=
  if_neg h

/-- The next double below is nearer exactly at the powers of two, except for the least ones. -/
theorem isLopsided_ofBits (bits : ℕ) : (Binary.ofBits bits).isLopsided = true ↔
    (Binary.ofBits bits).mantissa = 2 ^ 52 ∧ -1074 < (Binary.ofBits bits).exponent := by
  by_cases hp : bits / 2 ^ 52 % 2 ^ 11 = 0
  · rw [ofBits_subnormal hp]
    simp
  · rw [ofBits_normal hp]
    simp only [Bool.and_eq_true, beq_iff_eq, decide_eq_true_eq]
    omega

theorem toNat_unpackMantissa (b : BitVec 64) : (@unpackMantissa .binary64 b).toNat = b.toNat % 2 ^ 52 := by
  rw [unpackMantissa_def, BitVec.extractLsb'_toNat]
  rfl

theorem toNat_unpackExponent (b : BitVec 64) : (@unpackExponent .binary64 b).toNat = b.toNat / 2 ^ 52 % 2 ^ 11 := by
  rw [unpackExponent_def, BitVec.extractLsb'_toNat, Nat.shiftRight_eq_div_pow]

theorem unpackSign_eq (bits : UInt64) : Sign.ofBitVec (@unpackSign .binary64 bits.toBitVec) = signOf bits := by
  have hsign : (@unpackSign .binary64 bits.toBitVec).toNat = bits.toNat / 2 ^ 63 := by
    rw [unpackSign_def, BitVec.extractLsb'_toNat, Nat.shiftRight_eq_div_pow]
    have hlt := bits.toNat_lt
    change bits.toNat / 2 ^ 63 % 2 ^ 1 = _
    omega
  unfold signOf Sign.ofBitVec
  congr 1
  rw [← BitVec.toNat_inj, hsign, UInt64.lt_iff_toNat_lt, eq_iff_iff]
  change bits.toNat / 2 ^ 63 = 0 ↔ bits.toNat < 2 ^ 63
  omega

section

variable {b : BitVec 64}

theorem unpack_of_last (hp : @unpackExponent .binary64 b = -1#11) : unpack .binary64 b = .notANumber ∨
    unpack .binary64 b = .infinity (.ofBitVec (@unpackSign .binary64 b)) := by
  unfold unpack
  rw [if_pos hp]
  by_cases hf : @unpackMantissa .binary64 b = 0#52
  · exact .inr (if_pos hf)
  · exact .inl (if_neg hf)

theorem unpack_of_zero (hp : @unpackExponent .binary64 b = 0#11) (hf : @unpackMantissa .binary64 b = 0#52) :
    unpack .binary64 b = .zero (.ofBitVec (@unpackSign .binary64 b)) := by
  have hlast : @unpackExponent .binary64 b ≠ -1#11 := by rw [hp]; decide
  unfold unpack
  rw [if_neg hlast, if_pos hp, dif_pos hf]

theorem unpack_of_subnormal (hp : @unpackExponent .binary64 b = 0#11) (hf : @unpackMantissa .binary64 b ≠ 0#52)
    (hpos : 0 < (@unpackMantissa .binary64 b).toNat) : unpack .binary64 b =
      .finite (.ofBitVec (@unpackSign .binary64 b)) (@unpackMantissa .binary64 b).toNat (-1074) hpos := by
  have hlast : @unpackExponent .binary64 b ≠ -1#11 := by rw [hp]; decide
  unfold unpack
  simp only [if_neg hlast, if_pos hp, dif_neg hf]
  rw [hp]
  rfl

theorem unpack_of_normal (hlast : @unpackExponent .binary64 b ≠ -1#11) (hp : @unpackExponent .binary64 b ≠ 0#11) :
    ∃ hpos, unpack .binary64 b = .finite (.ofBitVec (@unpackSign .binary64 b))
      (2 ^ 52 + (@unpackMantissa .binary64 b).toNat) ((@unpackExponent .binary64 b).toNat - 1075) hpos := by
  refine ⟨by positivity, ?_⟩
  unfold unpack
  simp only [if_neg hlast, if_neg hp, toNat_implicit]
  rfl

end

/-- The bits are those of a finite double other than zero, with this mantissa and this exponent. -/
structure HasParts (bits : UInt64) (m : ℕ) (q : ℤ) : Prop where
  parts : m = (Binary.ofBits bits.toNat).mantissa ∧ q = (Binary.ofBits bits.toNat).exponent
  canonical : Canonical m q
  most : q ≤ 971
  unpack_eq : unpack .binary64 bits.toBitVec = .finite (signOf bits) m q canonical.pos

theorem hasParts_normal {bits : UInt64} (hlow : bits.toNat / 2 ^ 52 % 2 ^ 11 ≠ 0)
    (hhigh : bits.toNat / 2 ^ 52 % 2 ^ 11 ≠ 2047) :
    HasParts bits (2 ^ 52 + bits.toNat % 2 ^ 52) ((bits.toNat / 2 ^ 52 % 2 ^ 11 : ℕ) - 1075) := by
  have hfraction : (@unpackMantissa .binary64 bits.toBitVec).toNat = bits.toNat % 2 ^ 52 := toNat_unpackMantissa _
  have hpower : (@unpackExponent .binary64 bits.toBitVec).toNat = bits.toNat / 2 ^ 52 % 2 ^ 11 := toNat_unpackExponent _
  have hlast : @unpackExponent .binary64 bits.toBitVec ≠ -1#11 := by
    intro h
    rw [h] at hpower
    exact hhigh hpower.symm
  have hleast : @unpackExponent .binary64 bits.toBitVec ≠ 0#11 := by
    intro h
    rw [h] at hpower
    exact hlow hpower.symm
  obtain ⟨hpos, hnormal⟩ := unpack_of_normal hlast hleast
  refine ⟨?_, ⟨by omega, by omega, by omega, by omega⟩, by omega, ?_⟩
  · rw [ofBits_normal hlow]
    exact ⟨rfl, rfl⟩
  · simp only [hnormal, unpackSign_eq, hfraction, hpower]

/-- Every double is of one of four kinds. -/
theorem unpack_cases (bits : UInt64) :
    unpack .binary64 bits.toBitVec = .notANumber ∨ unpack .binary64 bits.toBitVec = .infinity (signOf bits) ∨
      unpack .binary64 bits.toBitVec = .zero (signOf bits) ∨ ∃ m q, HasParts bits m q := by
  have hfraction : (@unpackMantissa .binary64 bits.toBitVec).toNat = bits.toNat % 2 ^ 52 := toNat_unpackMantissa _
  have hpower : (@unpackExponent .binary64 bits.toBitVec).toNat = bits.toNat / 2 ^ 52 % 2 ^ 11 := toNat_unpackExponent _
  by_cases hlast : @unpackExponent .binary64 bits.toBitVec = -1#11
  · rcases unpack_of_last hlast with h | h
    · exact .inl h
    · exact .inr (.inl (h.trans (congrArg _ (unpackSign_eq bits))))
  by_cases hleast : @unpackExponent .binary64 bits.toBitVec = 0#11
  · by_cases hzero : @unpackMantissa .binary64 bits.toBitVec = 0#52
    · exact .inr (.inr (.inl ((unpack_of_zero hleast hzero).trans (congrArg _ (unpackSign_eq bits)))))
    · have hpos := Nat.pos_of_ne_zero fun h => hzero (BitVec.eq_of_toNat_eq h)
      have hparts := @ofBits_subnormal bits.toNat (by rw [← hpower, hleast]; rfl)
      refine .inr (.inr (.inr ⟨_, _, ⟨rfl, rfl⟩, ?_, ?_, ?_⟩))
      · rw [hparts]
        exact ⟨hfraction ▸ hpos, (Nat.mod_lt _ (by norm_num)).trans (by norm_num), le_rfl, .inr rfl⟩
      · rw [hparts]
        norm_num
      · simp only [hparts, unpack_of_subnormal hleast hzero hpos, unpackSign_eq, hfraction]
  · refine .inr (.inr (.inr ⟨_, _, hasParts_normal (fun h => hleast ?_) fun h => hlast ?_⟩))
    · exact BitVec.eq_of_toNat_eq (hpower.trans h)
    · exact BitVec.eq_of_toNat_eq (hpower.trans h)

/-- Doubles with the same parts are the same. -/
theorem eq_of_unpack {x y : Float} (h : x.toModel.unpack = y.toModel.unpack) : x = y :=
  Float.toBits_inj.1 (UInt64.toBitVec_inj.1 ((unpack_inj_of_valid x.toModel.valid y.toModel.valid).1 h))

end TaskFleet.Decimal
