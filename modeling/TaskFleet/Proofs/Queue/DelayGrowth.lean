/-
  TaskFleet.Proofs.Queue.DelayGrowth — delays never shrink from one failure to the next, and never
  pass their cap.

  A span is stored as two words, its seconds and the nanoseconds beyond them. A product multiplies
  both, carries the whole seconds among the nanoseconds over, and is the largest span where the
  seconds do not fit their word.
  - `words_mul`: the product in words is the product of spans.
  - `doublings_le`: the factor never shrinks, also where it stops being a power of two.
  - `delays_grow_to_their_caps`: the delays of attempts and of restarts.
-/

import TaskFleet.Autoscale.Restart
import TaskFleet.Proofs.Queue.RetryDelays

namespace TaskFleet

/-- The word that holds a number, if one does. -/
def word? (n : Nat) : Option UInt64 := if n < UInt64.size then some (.ofNat n) else none

theorem word?_eq_some_iff {n : Nat} {x : UInt64} : word? n = some x ↔ x.toNat = n := by
  unfold word?
  constructor
  · intro h
    split at h
    · next hlt =>
      cases h
      rw [UInt64.toNat_ofNat', Nat.mod_eq_of_lt hlt]
    · cases h
  · rintro rfl
    rw [if_pos x.toNat_lt, UInt64.ofNat_toNat]

theorem word?_eq_none_iff {n : Nat} : word? n = none ↔ UInt64.size ≤ n := by
  unfold word?
  split <;> simp <;> omega

namespace Duration

/-! ## Spans in words -/

/-- Seconds, and nanoseconds beyond them. -/
abbrev Words := UInt64 × UInt32

/-- The shorter of two spans has less seconds, or as many and less nanoseconds. -/
def Words.least (x y : Words) : Words := if x.1 < y.1 ∨ x.1 = y.1 ∧ x.2 ≤ y.2 then x else y

variable {a b d : Duration} {k : UInt32}

def words (d : Duration) : Words := (d.secs, d.subsecNanos)

/-- The nanoseconds of a product, with whole seconds among them. -/
def nanoProduct (d : Duration) (k : UInt32) : UInt64 := d.subsecNanos.toUInt64 * k.toUInt64

/-- A product as it is computed in words; none if its seconds do not fit. -/
def mulWords? (d : Duration) (k : UInt32) : Option Words := do
  let secs ← word? (d.secs.toNat * k.toNat)
  let secs ← word? (secs.toNat + (d.nanoProduct k / 1000000000).toNat)
  return (secs, (d.nanoProduct k % 1000000000).toUInt32)

theorem toNat_secs (d : Duration) : d.secs.toNat = d.nanos / 1000000000 := by
  have hlt := d.nanos_lt
  rw [secs, UInt64.toNat_ofNat', Nat.mod_eq_of_lt]
  omega

theorem toNat_subsecNanos (d : Duration) : d.subsecNanos.toNat = d.nanos % 1000000000 := by
  rw [subsecNanos, UInt32.toNat_ofNat', Nat.mod_eq_of_lt]
  omega

theorem le_iff_words : a ≤ b ↔ a.words.1 < b.words.1 ∨ a.words.1 = b.words.1 ∧ a.words.2 ≤ b.words.2 := by
  rw [le_def, words, words, UInt64.lt_iff_toNat_lt, ← UInt64.toNat_inj, UInt32.le_iff_toNat_le, toNat_secs, toNat_secs,
    toNat_subsecNanos, toNat_subsecNanos]
  omega

theorem words_least (a b : Duration) : (a.least b).words = a.words.least b.words := by
  unfold least Words.least
  by_cases h : a ≤ b
  · rw [if_pos h, if_pos (le_iff_words.1 h)]
  · rw [if_neg h, if_neg fun hw => h (le_iff_words.2 hw)]

theorem words_eq_of_toNat {secs : UInt64} {nanos : UInt32} (hsecs : secs.toNat = d.nanos / 1000000000)
    (hnanos : nanos.toNat = d.nanos % 1000000000) : d.words = (secs, nanos) :=
  Prod.ext (UInt64.toNat_inj.1 ((toNat_secs d).trans hsecs.symm))
    (UInt32.toNat_inj.1 ((toNat_subsecNanos d).trans hnanos.symm))

/-- Nanoseconds below a second times a word of 32 bits fit a word of 64. -/
theorem toNat_nanoProduct (d : Duration) (k : UInt32) :
    (d.nanoProduct k).toNat = d.nanos % 1000000000 * k.toNat := by
  have hk : k.toNat < 4294967296 := k.toNat_lt
  have hproduct : d.nanos % 1000000000 * k.toNat ≤ 999999999 * 4294967295 :=
    Nat.mul_le_mul (by omega) (by omega)
  rw [nanoProduct, UInt64.toNat_mul, UInt32.toNat_toUInt64, UInt32.toNat_toUInt64, toNat_subsecNanos,
    Nat.mod_eq_of_lt]
  omega

/-- The words of a product are the product of spans. -/
theorem words_mul (d : Duration) (k : UInt32) : (d.mul k).words = (d.mulWords? k).getD longest.words := by
  have hsize : UInt64.size = 18446744073709551616 := rfl
  have hlongest : longest.nanos = UInt64.size * 1000000000 - 1 := rfl
  have hsplit : d.nanos * k.toNat = d.secs.toNat * k.toNat * 1000000000 + (d.nanoProduct k).toNat := by
    rw [toNat_nanoProduct, toNat_secs, Nat.mul_right_comm, ← Nat.add_mul, Nat.mul_comm (d.nanos / 1000000000),
      Nat.div_add_mod]
  have hcarry : (d.nanoProduct k / 1000000000).toNat = (d.nanoProduct k).toNat / 1000000000 := UInt64.toNat_div _ _
  have hrest : (d.nanoProduct k % 1000000000).toUInt32.toNat = (d.nanoProduct k).toNat % 1000000000 := by
    rw [UInt64.toNat_toUInt32, UInt64.toNat_mod, show UInt64.toNat 1000000000 = 1000000000 from rfl]
    omega
  have hmul := nanos_mul d k
  -- a product of too many seconds is the longest span
  have htooLong : longest.nanos < d.nanos * k.toNat → (d.mul k).words = longest.words := fun h =>
    congrArg words (Duration.ext (by omega))
  unfold mulWords?
  cases hsecs : word? (d.secs.toNat * k.toNat) with
  | none =>
    rw [word?_eq_none_iff] at hsecs
    exact htooLong (by omega)
  | some secs =>
    rw [word?_eq_some_iff] at hsecs
    simp only [Option.bind_eq_bind, Option.bind_some]
    cases hall : word? (secs.toNat + (d.nanoProduct k / 1000000000).toNat) with
    | none =>
      rw [word?_eq_none_iff] at hall
      exact htooLong (by omega)
    | some all =>
      rw [word?_eq_some_iff] at hall
      have hfits := all.toNat_lt
      show (d.mul k).words = (all, (d.nanoProduct k % 1000000000).toUInt32)
      exact words_eq_of_toNat (by omega) (by omega)

theorem mul_le_mul {n : UInt32} (h : k ≤ n) : d.mul k ≤ d.mul n := by
  have hproduct : d.nanos * k.toNat ≤ d.nanos * n.toNat := Nat.mul_le_mul_left _ (UInt32.le_iff_toNat_le.1 h)
  rw [le_def, nanos_mul, nanos_mul]
  omega

end Duration

/-! ## The factor -/

theorem doublings_le {m n : UInt32} (h : m ≤ n) : doublings m ≤ doublings n := by
  have hpow : 2 ^ m.toNat ≤ 2 ^ n.toNat := Nat.pow_le_pow_right (by decide) (UInt32.le_iff_toNat_le.1 h)
  rw [UInt32.le_iff_toNat_le, Backoff.toNat_doublings, Backoff.toNat_doublings]
  omega

/-! ## The delays -/

namespace Backoff

variable {m n : UInt32}

/-- The delay as it is computed in words. -/
def delayWords (b : Backoff) (n : UInt32) : Duration.Words :=
  ((b.base.mulWords? (doublings n)).getD Duration.longest.words).least b.longest.words

theorem words_delay (b : Backoff) (n : UInt32) : (b.delay n).words = b.delayWords n := by
  rw [delay, Duration.words_least, Duration.words_mul, delayWords]

theorem delay_le_longest (b : Backoff) (n : UInt32) : b.delay n ≤ b.longest := by
  rw [Duration.le_def, delay, Duration.nanos_least]
  omega

theorem delay_le_delay (b : Backoff) (h : m ≤ n) : b.delay m ≤ b.delay n := by
  have hmul : b.base.mul (doublings m) ≤ b.base.mul (doublings n) := Duration.mul_le_mul (doublings_le h)
  rw [Duration.le_def] at hmul ⊢
  rw [delay, delay, Duration.nanos_least, Duration.nanos_least]
  omega

theorem delay_zero (b : Backoff) : b.delay 0 = b.base.least b.longest := by
  have hbase := b.base.nanos_le_longest
  have hone : b.base.mul (doublings 0) = b.base := by
    refine Duration.ext ?_
    rw [Duration.nanos_mul, toNat_doublings]
    simp
    omega
  rw [delay, hone]

end Backoff

namespace RestartPolicy

variable {m n : UInt32}

/-- The first restart does not wait; the others are delayed like attempts. -/
theorem backoff_succ (p : RestartPolicy) (h : n.toNat + 1 < UInt32.size) :
    p.backoff (n + 1) = Backoff.delay ⟨p.base, p.longest⟩ n := by
  have hne : n + 1 ≠ 0 := by
    intro hzero
    have hnat := congrArg UInt32.toNat hzero
    rw [UInt32.toNat_add, UInt32.toNat_one, Nat.mod_eq_of_lt h] at hnat
    cases hnat
  rw [backoff, if_neg hne, UInt32.add_sub_cancel]

theorem backoff_eq (p : RestartPolicy) (h : n ≠ 0) : p.backoff n = Backoff.delay ⟨p.base, p.longest⟩ (n - 1) :=
  if_neg h

theorem zero_le_backoff (p : RestartPolicy) (n : UInt32) : Duration.zero ≤ p.backoff n := Nat.zero_le _

theorem backoff_le_longest (p : RestartPolicy) (n : UInt32) : p.backoff n ≤ p.longest := by
  by_cases h : n = 0
  · rw [backoff, if_pos h]
    exact Nat.zero_le _
  · rw [p.backoff_eq h]
    exact Backoff.delay_le_longest _ _

theorem backoff_le_backoff (p : RestartPolicy) (h : m ≤ n) : p.backoff m ≤ p.backoff n := by
  by_cases hm : m = 0
  · rw [hm]
    exact p.zero_le_backoff n
  · have hone : 1 ≤ m := UInt32.le_iff_toNat_le.2 (Nat.pos_of_ne_zero fun hzero => hm (UInt32.toNat_inj.1 hzero))
    have hn : n ≠ 0 := by
      rintro rfl
      exact absurd (UInt32.le_trans hone h) (by decide)
    rw [p.backoff_eq hm, p.backoff_eq hn]
    refine Backoff.delay_le_delay _ (UInt32.le_iff_toNat_le.2 ?_)
    rw [UInt32.toNat_sub_of_le _ _ hone, UInt32.toNat_sub_of_le _ _ (UInt32.le_trans hone h)]
    exact Nat.sub_le_sub_right (UInt32.le_iff_toNat_le.1 h) _

end RestartPolicy

namespace Backoff

/-- For every base and every cap, in nanoseconds, and all numbers of failures or restarts: delays never shrink and never
    pass their cap. They start at the base or the cap, restarts at nothing, and from the second restart on a restart waits
    as long as an attempt that failed once less. The delay is the one computed in words, whatever of them overflows. -/
theorem delays_grow_to_their_caps (b : Backoff) (p : RestartPolicy) {m n : UInt32} (h : m ≤ n) :
    (b.delay m ≤ b.delay n ∧ b.delay n ≤ b.longest ∧ b.delay 0 = b.base.least b.longest ∧
      (b.delay n).words = b.delayWords n) ∧
    p.backoff m ≤ p.backoff n ∧ p.backoff n ≤ p.longest ∧ p.backoff 0 = .zero ∧
      (n.toNat + 1 < UInt32.size → p.backoff (n + 1) = delay ⟨p.base, p.longest⟩ n) :=
  ⟨⟨b.delay_le_delay h, b.delay_le_longest n, b.delay_zero, b.words_delay n⟩,
    p.backoff_le_backoff h, p.backoff_le_longest n, rfl, p.backoff_succ⟩

/-- A base of which the largest power of two is a product that just fits, by the seconds that its nanoseconds carry. -/
def nearlyTooLong : Backoff := ⟨.ofSecsNanos 8589934591 999999999, .longest⟩

/-- The same for restarts. -/
def nearlyTooLongRestarts : RestartPolicy := { base := nearlyTooLong.base, longest := nearlyTooLong.longest }

/-- One more failure and the seconds overflow. -/
theorem delays_grow_to_their_caps_overflow :
    (31 : UInt32) ≤ 32 ∧ nearlyTooLong.delayWords 31 = (18446744073709551613, 852516352) ∧
      nearlyTooLong.delay 31 ≤ nearlyTooLong.delay 32 ∧ nearlyTooLong.delay 32 ≤ nearlyTooLong.longest ∧
      (nearlyTooLong.delay 32).words = Duration.longest.words ∧
      nearlyTooLongRestarts.backoff 31 ≤ nearlyTooLongRestarts.backoff 32 ∧
      nearlyTooLongRestarts.backoff (32 + 1) = nearlyTooLong.delay 32 := by
  have hle : (31 : UInt32) ≤ 32 := by decide
  obtain ⟨⟨hgrows, hcap, -, hwords⟩, hrestarts, -, -, hsucc⟩ :=
    delays_grow_to_their_caps nearlyTooLong nearlyTooLongRestarts hle
  exact ⟨hle, by decide +kernel, hgrows, hcap, hwords.trans (by decide +kernel), hrestarts, hsucc (by decide)⟩

end Backoff

end TaskFleet
