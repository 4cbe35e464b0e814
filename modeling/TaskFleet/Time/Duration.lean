/-
  TaskFleet.Time.Duration — a span of time in whole nanoseconds, at most `2^64 - 1` seconds
  and 999 999 999 nanoseconds.

  Products stop at the largest span instead of wrapping, so a delay that grows is never cut
  short. `nanos_mul` is the exact value of a product.
-/

namespace TaskFleet

/-- A span of time; `nanos` is its whole length in nanoseconds. -/
structure Duration where
  nanos : Nat
  nanos_lt : nanos < 18446744073709551616 * 1000000000
  deriving DecidableEq

namespace Duration

/-- The span that is `n` nanoseconds long, or the largest one. -/
def ofNanos (n : Nat) : Duration := ⟨min n (18446744073709551616 * 1000000000 - 1), by omega⟩

def zero : Duration := ⟨0, by decide⟩

instance : Inhabited Duration := ⟨zero⟩

/-- The largest span. -/
def longest : Duration := ⟨18446744073709551616 * 1000000000 - 1, by decide⟩

def ofSecs (s : UInt64) : Duration :=
  ⟨s.toNat * 1000000000, by have := s.toNat_lt; omega⟩

/-- `secs` seconds and `nanos` nanoseconds, or the largest span. -/
def ofSecsNanos (secs : UInt64) (nanos : UInt32) : Duration :=
  ofNanos (secs.toNat * 1000000000 + nanos.toNat)

/-- The whole seconds. -/
def secs (d : Duration) : UInt64 := UInt64.ofNat (d.nanos / 1000000000)

/-- The nanoseconds beyond the whole seconds. -/
def subsecNanos (d : Duration) : UInt32 := UInt32.ofNat (d.nanos % 1000000000)

/-- The whole milliseconds. -/
def millis (d : Duration) : Nat := d.nanos / 1000000

instance : LE Duration := ⟨fun a b => a.nanos ≤ b.nanos⟩
instance (a b : Duration) : Decidable (a ≤ b) := inferInstanceAs (Decidable (a.nanos ≤ b.nanos))

/-- The shorter of two spans. -/
def least (a b : Duration) : Duration := if a ≤ b then a else b

/-- `k` times the span, or the largest span. -/
def mul (d : Duration) (k : UInt32) : Duration := ofNanos (d.nanos * k.toNat)

theorem le_def {a b : Duration} : a ≤ b ↔ a.nanos ≤ b.nanos := Iff.rfl

@[ext] theorem ext {a b : Duration} (h : a.nanos = b.nanos) : a = b := by
  cases a; cases b; simp_all

@[simp] theorem nanos_ofNanos (n : Nat) : (ofNanos n).nanos = min n longest.nanos := rfl

@[simp] theorem nanos_ofSecs (s : UInt64) : (ofSecs s).nanos = s.toNat * 1000000000 := rfl

@[simp] theorem nanos_mul (d : Duration) (k : UInt32) :
    (d.mul k).nanos = min (d.nanos * k.toNat) longest.nanos := rfl

@[simp] theorem nanos_least (a b : Duration) : (a.least b).nanos = min a.nanos b.nanos := by
  unfold least
  split <;> rename_i h <;> rw [le_def] at h <;> omega

theorem nanos_le_longest (d : Duration) : d.nanos ≤ longest.nanos := by
  have := d.nanos_lt
  show d.nanos ≤ 18446744073709551616 * 1000000000 - 1
  omega

@[simp] theorem secs_ofSecs (s : UInt64) : (ofSecs s).secs = s := by simp [secs]

end Duration

end TaskFleet
