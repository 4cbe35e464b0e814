/-
  TaskFleet.Word — sums of 64-bit words that must fit.

  IDs, deadlines and the ends of leases are sums that never wrap around: where the sum is too
  large for 64 bits there is none, and whoever asked for it crashes.
  - `sum?_eq_some_iff`: when there is a sum, and which.
-/

namespace TaskFleet

/-- The sum of two words, if it fits. -/
def sum? (a b : UInt64) : Option UInt64 := if a.toNat + b.toNat < UInt64.size then some (a + b) else none

/-- What a crash says if a sum did not fit. -/
def sumTooLarge : String := "attempt to add with overflow"

variable {a b c : UInt64}

theorem sum?_eq_some_iff : sum? a b = some c ↔ a.toNat + b.toNat < UInt64.size ∧ c = a + b := by
  unfold sum?
  split
  · next hfits => exact ⟨fun h => ⟨hfits, (Option.some.inj h).symm⟩, fun ⟨_, h⟩ => congrArg some h.symm⟩
  · next hlong => exact ⟨nofun, fun ⟨hfits, _⟩ => absurd hfits hlong⟩

theorem sum?_of_lt (h : a.toNat + b.toNat < UInt64.size) : sum? a b = some (a + b) := sum?_eq_some_iff.2 ⟨h, rfl⟩

theorem sum?_of_le (h : UInt64.size ≤ a.toNat + b.toNat) : sum? a b = none := if_neg (Nat.not_lt.2 h)

@[simp] theorem sum?_zero (a : UInt64) : sum? a 0 = some a := by
  rw [sum?_of_lt (by simpa using a.toNat_lt), UInt64.add_zero]

/-- A sum that is there is the sum of the numbers. -/
theorem toNat_of_sum? (h : sum? a b = some c) : c.toNat = a.toNat + b.toNat := by
  obtain ⟨hlt, rfl⟩ := sum?_eq_some_iff.1 h
  rw [UInt64.toNat_add, Nat.mod_eq_of_lt hlt]

end TaskFleet
