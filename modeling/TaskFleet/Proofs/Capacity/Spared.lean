/-
  TaskFleet.Proofs.Capacity.Spared — the slots that are none of a task's business.

  While a task is being started, one slot may be in the hand of the attempt: one that was idle
  or the task's before. All other slots are spared.
  - `Spared`: idle slots stay idle and slots of other tasks stay as they are.
  - `Spared.reserve`, `Spared.release`, `Spared.markRunning`: taking a slot into the hand,
    putting it down, and leaving the task on it.
-/

import TaskFleet.Proofs.Capacity.Slots

namespace TaskFleet

namespace Capacity

variable {c c₁ c₂ : Capacity} {x y : Spot} {s : Slot} {task : UInt64} {hand : Option Spot} {p : Placement} {kind : TaskKind}
  {now : UInt64}

/-- What became of the slots by a task's attempt, which may have one of them in its hand: one
    that was idle or the task's before, and has the task on it now. -/
structure Spared (task : UInt64) (hand : Option Spot) (c c' : Capacity) : Prop where
  named : c'.Named
  exist : ∀ x, (c'.slotAt x).isSome = (c.slotAt x).isSome
  idle : ∀ x s, hand ≠ some x → c.slotAt x = some s → s.isIdle = true → ∃ s', c'.slotAt x = some s' ∧ s'.isIdle = true
  others : ∀ x s, c.slotAt x = some s → s.isIdle = false → s.task ≠ some task → c'.slotAt x = some s
  own : ∀ x, hand ≠ some x → c'.taskAt x = some task → c.taskAt x = some task
  inHand : ∀ x, hand = some x → c'.taskAt x = some task ∧ ∃ s, c.slotAt x = some s ∧ (s.isIdle = true ∨ s.task = some task)

theorem Spared.refl (hn : c.Named) (task : UInt64) : Spared task none c c where
  named := hn
  exist := fun _ => rfl
  idle := fun _ s _ hs hidle => ⟨s, hs, hidle⟩
  others := fun _ _ hs _ _ => hs
  own := fun _ _ h => h
  inHand := fun x h => by cases h

/-- Writing the slot in the hand, which is idle or the task's, touches no other. -/
theorem Spared.modifySlot (h : Spared task hand c c₁) (hx : hand = none ∨ hand = some x) {s₁ : Slot}
    (hs₁ : c₁.slotAt x = some s₁) (hfree : s₁.isIdle = true ∨ s₁.task = some task) {f : Slot → Slot} {hand' : Option Spot}
    (hidle : hand' ≠ some x → (f s₁).isIdle = true ∧ (f s₁).task = none)
    (hbound : hand' = some x → (f s₁).task = some task) (honly : ∀ z, hand' = some z → z = x) :
    Spared task hand' c (c₁.modifySlot x.pod x.slot f) := by
  -- the slot was idle or the task's from the start
  have hbefore : ∃ s, c.slotAt x = some s ∧ (s.isIdle = true ∨ s.task = some task) := by
    have hsome := h.exist x
    rw [hs₁] at hsome
    obtain ⟨s, hs⟩ := Option.isSome_iff_exists.1 hsome.symm
    refine ⟨s, hs, Classical.byContradiction fun hno => ?_⟩
    obtain ⟨hni, hnt⟩ := not_or.1 hno
    have heq := h.others x s hs (by simpa using hni) hnt
    rw [hs₁] at heq
    cases heq
    exact hno hfree
  have hhere : (c₁.modifySlot x.pod x.slot f).slotAt x = some (f s₁) := slotAt_modifySlot_self hs₁
  have helse : ∀ z, z ≠ x → (c₁.modifySlot x.pod x.slot f).slotAt z = c₁.slotAt z := fun z hz => slotAt_modifySlot_of_ne hz
  have hnot : ∀ z, z ≠ x → hand ≠ some z := by
    rintro z hz rfl
    rcases hx with hx | hx
    · cases hx
    · exact hz (Option.some.inj hx)
  refine ⟨h.named.modify x.pod fun _ => rfl, fun z => ?_, fun z s hz hs hsidle => ?_, fun z s hs hsb hst => ?_,
    fun z hz htask => ?_, fun z hz => ?_⟩
  · by_cases hzx : z = x
    · rw [hzx, hhere, ← h.exist x, hs₁]; rfl
    · rw [helse z hzx, h.exist z]
  · by_cases hzx : z = x
    · exact ⟨f s₁, hzx ▸ hhere, (hidle (hzx ▸ hz)).1⟩
    · rw [helse z hzx]; exact h.idle z s (hnot z hzx) hs hsidle
  · by_cases hzx : z = x
    · obtain ⟨s', hs', hfree'⟩ := hbefore
      rw [hzx, hs'] at hs
      cases hs
      rcases hfree' with hi | ht
      · rw [hi] at hsb; cases hsb
      · exact absurd ht hst
    · rw [helse z hzx]; exact h.others z s hs hsb hst
  · by_cases hzx : z = x
    · unfold taskAt at htask
      rw [hzx, hhere, Option.bind_some, (hidle (hzx ▸ hz)).2] at htask
      cases htask
    · rw [taskAt_congr (helse z hzx)] at htask
      exact h.own z (hnot z hzx) htask
  · rw [honly z hz]
    refine ⟨?_, hbefore⟩
    unfold taskAt
    rw [hhere]
    exact hbound (honly z hz ▸ hz)

theorem Spared.reserve (h : Spared task none c c₁) (hr : Reserves c₁ c₂ p task kind now) :
    Spared task (some p.spot) c c₂ := by
  obtain ⟨⟨s, hs, hidle⟩, -, rfl⟩ := hr
  exact h.modifySlot (.inl rfl) hs (.inl hidle) (fun h => absurd rfl h) (fun _ => rfl) fun z hz => (Option.some.inj hz).symm

/-- The slot in the hand is there. -/
theorem Spared.slot (h : Spared task (some x) c c₁) : ∃ s, c₁.slotAt x = some s ∧ s.task = some task :=
  Option.bind_eq_some_iff.1 (h.inHand x rfl).1

/-- The slot in the hand can be put down, and then everything is as before. -/
theorem Spared.release (h : Spared task (some x) c c₁) (now : UInt64) :
    ∃ c₂, c₁.release x.pod x.slot now = .ok c₂ ∧ Spared task none c c₂ := by
  obtain ⟨s, hs, htask⟩ := h.slot
  exact ⟨_, setSlot_eq hs, h.modifySlot (.inr rfl) hs (.inr htask) (fun _ => ⟨rfl, rfl⟩) (fun h => by cases h)
    fun z hz => by cases hz⟩

/-- The task runs on the slot, for this agent. -/
structure RunsOn (c : Capacity) (task : UInt64) (x : Spot) (agent : Option String) : Prop where
  slot : ∃ s, c.slotAt x = some s ∧ s.task = some task ∧ s.status = .running
  agent : (c.pods.get? x.pod).map (·.agent) = some agent

theorem agent_modifySlot (x : Spot) (f : Slot → Slot) (pod : String) :
    ((c.modifySlot x.pod x.slot f).pods.get? pod).map (·.agent) = (c.pods.get? pod).map (·.agent) := by
  unfold Capacity.modifySlot
  rw [Table.get?_modify]
  split
  · rw [Option.map_map]; rfl
  · rfl

theorem Spared.markRunning (h : Spared task (some x) c c₁) {agent : Option String}
    (ha : (c₁.pods.get? x.pod).map (·.agent) = some agent) (now : UInt64) :
    ∃ c₂, c₁.markRunning x.pod x.slot now = .ok c₂ ∧ Spared task (some x) c c₂ ∧ RunsOn c₂ task x agent := by
  obtain ⟨s, hs, htask⟩ := h.slot
  refine ⟨_, setSlot_eq hs, h.modifySlot (.inr rfl) hs (.inr htask) (fun h => absurd rfl h) (fun _ => htask)
    fun z hz => (Option.some.inj hz).symm, ⟨s.markRunning now, slotAt_modifySlot_self hs, htask, rfl⟩, ?_⟩
  rw [agent_modifySlot x]
  exact ha

end Capacity

end TaskFleet
