/-
  TaskFleet.Proofs.Autoscale.DesiredPods — what the number of pods to have guarantees.

  Five rules have a say: an empty pool's first pods, exclusive work that needs a pod of its own,
  the share of taken slots upwards and downwards, and the reserved slots. The later ones override
  the earlier ones, and the pool's bounds come last, the lower one over the upper one.
  - `toNat_desiredPods_of_empty`, `toNat_desiredPods_of_slots`: the rules as one formula over
    numbers.
  - `desiredPods_guarantees`: the bounds, room for what is reserved, by how much a pool shrinks
    and when, and pods for the exclusive work, whatever the shares are that a pool grows above
    and shrinks below.
-/

import Mathlib.Algebra.Order.Floor.Div
import TaskFleet.Proofs.Autoscale.Progress
import TaskFleet.Proofs.Autoscale.ReplicaCeiling

namespace TaskFleet

/-! ## Machine words as numbers -/

theorem toNat_clampWord {n low high : UInt32} (h : low ≤ high) :
    (clampWord n low high).toNat = max low.toNat (min n.toNat high.toNat) := by
  unfold clampWord
  simp only [UInt32.le_iff_toNat_le, UInt32.lt_iff_toNat_lt] at *
  split
  · omega
  · split <;> omega

theorem ceilDiv_eq_ite (a : Nat) {b : Nat} (hb : 0 < b) : a ⌈/⌉ b = if a % b = 0 then a / b else a / b + 1 := by
  have hparts := Nat.div_add_mod a b
  have hmod := Nat.mod_lt a hb
  rw [Nat.ceilDiv_eq_add_pred_div]
  split <;> refine Nat.div_eq_of_lt_le ?_ ?_ <;> grind

/-- Words are divided as numbers are; the one more that rounding up takes is a word too. -/
theorem toNat_ceilDiv (a : UInt32) {b : UInt32} (hb : 0 < b) : (ceilDiv a b).toNat = a.toNat ⌈/⌉ b.toNat := by
  have hpos : 0 < b.toNat := UInt32.lt_iff_toNat_lt.1 hb
  have hword : a.toNat ⌈/⌉ b.toNat < UInt32.size :=
    Nat.lt_of_le_of_lt ((ceilDiv_le_iff_le_mul hpos).2 (Nat.le_mul_of_pos_left _ hpos)) a.toNat_lt
  rw [ceilDiv_eq_ite _ hpos] at *
  unfold ceilDiv
  have hiff : a % b = 0 ↔ a.toNat % b.toNat = 0 := by
    rw [← UInt32.toNat_inj, UInt32.toNat_mod, UInt32.toNat_zero]
  simp only [hiff]
  split
  · exact UInt32.toNat_div _ _
  · next hrest =>
    rw [if_neg hrest] at hword
    rw [UInt32.toNat_add, UInt32.toNat_div, UInt32.toNat_one]
    exact Nat.mod_eq_of_lt hword

namespace PoolSnapshot

open Autoscale

variable {v : PoolSnapshot} {cfg : ScalingSettings} {pool : AgentPool}

/-! ## The rules as one formula -/

/-- A pool without pods, or without slots on them, gets its least number, and one if work waits. -/
theorem toNat_desiredPods_of_empty (h : v.pods = 0 ∨ v.stats.total = 0) :
    (v.desiredPods pool cfg).toNat =
      max pool.minReplicas.toNat (min (if 0 < v.pending then 1 else 0) (ceiling pool)) := by
  have hle : pool.minReplicas.toNat ≤ (max pool.maxReplicas pool.minReplicas).toNat := UInt32.le_iff_toNat_le.1 least_le_most
  unfold desiredPods
  rw [if_pos h, toNat_clampWord least_le_most, toNat_most]
  rw [toNat_most] at hle
  split
  · rw [UInt32.toNat_max, UInt32.toNat_one]
    omega
  · omega

theorem toNat_desiredPods_of_slots (hpods : v.pods ≠ 0) (hslots : v.stats.total ≠ 0) :
    (v.desiredPods pool cfg).toNat =
      max pool.minReplicas.toNat (min (max (v.wanted cfg).toNat (v.forReserved pool).toNat) (ceiling pool)) := by
  rw [desiredPods_of_slots hpods hslots, toNat_clampWord least_le_most, toNat_most, UInt32.toNat_max]

theorem toNat_forReserved :
    (v.forReserved pool).toNat = v.stats.reserved.toNat ⌈/⌉ max pool.slotsPerPod.toNat 1 := by
  have hone : 0 < max pool.slotsPerPod 1 := lt_max_iff.2 (.inr (by decide))
  rw [forReserved, toNat_ceilDiv _ hone, UInt32.toNat_max, UInt32.toNat_one]

/-! ## What the work asks for -/

/-- The sums that the rules compare are the numbers that they stand for. -/
structure Fits (v : PoolSnapshot) : Prop where
  onePodMore : v.pods.toNat + 1 < UInt32.size
  required : v.podsWithRunning.toNat + v.unblockedPendingApply.toNat < UInt32.size

theorem Fits.toNat_pods_add_one (h : v.Fits) : (v.pods + 1).toNat = v.pods.toNat + 1 := by
  rw [UInt32.toNat_add, UInt32.toNat_one]
  exact Nat.mod_eq_of_lt h.onePodMore

theorem Fits.toNat_required (h : v.Fits) :
    v.required.toNat = v.podsWithRunning.toNat + v.unblockedPendingApply.toNat := by
  rw [PoolSnapshot.required, UInt32.toNat_add]
  exact Nat.mod_eq_of_lt h.required

/-- The work asks for one pod less than there are, and that only if there is none. -/
theorem wanted_of_less (cfg : ScalingSettings) (h : v.Fits) (hless : (v.wanted cfg).toNat < v.pods.toNat) :
    v.stats.used = 0 ∧ v.unblockedPending = 0 ∧ (v.wanted cfg).toNat + 1 = v.pods.toNat := by
  have hmore := h.toNat_pods_add_one
  unfold wanted at *
  split at hless
  · next hwaits =>
    have hrequired := UInt32.lt_iff_toNat_lt.1 hwaits.2
    omega
  next hnone =>
  rw [if_neg hnone]
  simp only at *
  split at hless
  · omega
  next hgrow =>
  rw [if_neg hgrow]
  split at hless
  · next hidle =>
    rw [if_pos hidle]
    refine ⟨hidle.2.1, hidle.2.2, ?_⟩
    split at hless
    · next hempty => rw [hempty] at hless; exact absurd hless (by decide)
    · next hsome =>
      have hpos := UInt32.lt_iff_toNat_lt.1 (UInt32.pos_iff_ne_zero.2 hsome)
      have hone : (1 : UInt32) ≤ v.pods := UInt32.le_iff_toNat_le.2 hpos
      rw [if_neg hsome, UInt32.toNat_sub_of_le _ _ hone, UInt32.toNat_one]
      exact Nat.sub_add_cancel hpos
  · omega

/-- Exclusive work that could start, and no less work that could start at all: there are pods for
    what runs and for all of it. -/
theorem le_wanted_of_waiting (cfg : ScalingSettings) (h : v.Fits) (hwaits : 0 < v.unblockedPendingApply)
    (hpending : v.unblockedPendingApply ≤ v.unblockedPending) :
    v.podsWithRunning.toNat + v.unblockedPendingApply.toNat ≤ (v.wanted cfg).toNat := by
  have hsome : v.unblockedPending ≠ 0 := UInt32.pos_iff_ne_zero.1 (UInt32.lt_of_lt_of_le hwaits hpending)
  have hmore := h.toNat_pods_add_one
  rw [← h.toNat_required, wanted_of_waiting hwaits hsome]
  split
  · exact Nat.le_refl _
  · next hfew =>
    rw [UInt32.lt_iff_toNat_lt] at hfew
    split <;> omega

/-! ## The guarantees -/

/-- The number of pods to have is within the pool's bounds. Where there are pods with slots, it is
    room for what is reserved, as far as the bounds allow; it is less than there are only for the
    upper bound's sake, or by one of them while no slot is in use and no work could start; and it
    is enough for what runs and for the exclusive work that could start. -/
theorem desiredPods_guarantees (v : PoolSnapshot) (pool : AgentPool) (cfg : ScalingSettings) :
    (pool.minReplicas.toNat ≤ (v.desiredPods pool cfg).toNat ∧ (v.desiredPods pool cfg).toNat ≤ ceiling pool) ∧
    (v.pods ≠ 0 → v.stats.total ≠ 0 → v.Fits →
      min (ceiling pool) (v.stats.reserved.toNat ⌈/⌉ max pool.slotsPerPod.toNat 1) ≤ (v.desiredPods pool cfg).toNat ∧
      ((v.desiredPods pool cfg).toNat < v.pods.toNat →
        ceiling pool < v.pods.toNat ∨
        v.stats.used = 0 ∧ v.unblockedPending = 0 ∧ (v.desiredPods pool cfg).toNat + 1 = v.pods.toNat) ∧
      (0 < v.unblockedPendingApply → v.unblockedPendingApply ≤ v.unblockedPending →
        min (ceiling pool) (v.podsWithRunning.toNat + v.unblockedPendingApply.toNat) ≤
          (v.desiredPods pool cfg).toNat)) := by
  refine ⟨⟨?_, desiredPods_le v cfg⟩, fun hpods hslots hfits => ?_⟩
  · by_cases h : v.pods = 0 ∨ v.stats.total = 0
    · rw [toNat_desiredPods_of_empty h]
      exact Nat.le_max_left _ _
    · simp only [not_or] at h
      rw [toNat_desiredPods_of_slots h.1 h.2]
      exact Nat.le_max_left _ _
  rw [toNat_desiredPods_of_slots hpods hslots, ← toNat_forReserved]
  refine ⟨by omega, fun hless => ?_, fun hwaits hpending => ?_⟩
  · -- what is less than the pods there are is the upper bound, or what the work asks for
    by_cases hover : ceiling pool < v.pods.toNat
    · exact .inl hover
    · obtain ⟨hused, hpending, hone⟩ := wanted_of_less cfg hfits (by omega)
      exact .inr ⟨hused, hpending, by omega⟩
  · have hwanted := le_wanted_of_waiting cfg hfits hwaits hpending
    omega

/-- Nine pods of two slots each: three slots are kept for an apply, exclusive work runs on two of
    the pods, and more of it waits. -/
def crowded : PoolSnapshot :=
  { pods := 9, podsWithRunning := 2, stats := { total := 18, used := 2, reserved := 3, idle := 13 }
    pending := 2, unblockedPending := 2, unblockedPendingApply := 1 }

def fivePods : AgentPool := { id := "pool", kind := .kubernetes, minReplicas := 1, maxReplicas := 5, slotsPerPod := 2 }

theorem desiredPods_guarantees_crowded :
    crowded.Fits ∧ (crowded.desiredPods fivePods {}).toNat < crowded.pods.toNat ∧ ceiling fivePods < crowded.pods.toNat ∧
      3 ≤ (crowded.desiredPods fivePods {}).toNat ∧ (crowded.desiredPods fivePods {}).toNat ≤ 5 := by
  have hfits : crowded.Fits := ⟨by decide, by decide⟩
  obtain ⟨⟨-, hmost⟩, h⟩ := desiredPods_guarantees crowded fivePods {}
  have hless : (crowded.desiredPods fivePods {}).toNat < crowded.pods.toNat := Nat.lt_of_le_of_lt hmost (by decide)
  obtain ⟨-, hshrinks, happly⟩ := h (by decide) (by decide) hfits
  refine ⟨hfits, hless, ?_, happly (by decide) (by decide), hmost⟩
  exact (hshrinks hless).resolve_right fun h => absurd h.1 (by decide)

end PoolSnapshot

end TaskFleet
