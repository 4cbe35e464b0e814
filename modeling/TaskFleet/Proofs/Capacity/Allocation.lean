/-
  TaskFleet.Proofs.Capacity.Allocation — which slot a task gets in a pool, and when it gets none.

  A pod admits a task if it was heard of in time, has an idle slot and, for an exclusive task, holds no
  other one (`Pod.Admits`). Of the pods that do the oldest serves, and by name among pods of one age.
  - `freeSlot?_eq_some_iff`, `exists_freeSlot?_iff`: the rule on one pod.
  - `freeSlotIn?_eq_some_iff`: of all pods of a pool exactly the first one that admits the task is found.
  - `allocation_is_first_fit`: reserving a slot, looking for one, and looking first and reserving what
    was found.
-/

import TaskFleet.Proofs.Capacity.Slots

namespace TaskFleet

namespace Pod

variable {p q : Pod} {kind : TaskKind} {timeoutSecs now : UInt64} {i : Nat}

/-- Whether a pod has a place for a task of this kind. -/
structure Admits (p : Pod) (timeoutSecs : UInt64) (kind : TaskKind) (now : UInt64) : Prop where
  heard : now.toNat ≤ p.lastHeartbeat.toNat + timeoutSecs.toNat
  room : ∃ s ∈ p.slots, s.status = .idle
  alone : kind = .planAndApply → ∀ s ∈ p.slots, s.status ≠ .idle → s.kind ≠ some .planAndApply

/-- The place of the first slot that nothing is on. -/
def LowestIdle (p : Pod) (i : Nat) : Prop :=
  (∃ s, p.slots[i]? = some s ∧ s.status = .idle) ∧ ∀ j s, j < i → p.slots[j]? = some s → s.status ≠ .idle

/-- The order in which pods are served. -/
def Before (p q : Pod) : Prop := p.createdAt < q.createdAt ∨ p.createdAt = q.createdAt ∧ p.name < q.name

theorem LowestIdle.unique {j : Nat} (hi : p.LowestIdle i) (hj : p.LowestIdle j) : i = j := by
  obtain ⟨⟨s, hs, hidle⟩, hbelow⟩ := hi
  obtain ⟨⟨t, ht, hidle'⟩, hbelow'⟩ := hj
  rcases Nat.lt_trichotomy i j with hlt | heq | hlt
  · exact absurd hidle (hbelow' i s hlt hs)
  · exact heq
  · exact absurd hidle' (hbelow j t hlt ht)

theorem Before.asymm (h : p.Before q) : ¬q.Before p := by
  rintro (hlt | ⟨heq, hname⟩)
  · rcases h with hlt' | ⟨heq', -⟩
    · exact UInt64.lt_asymm hlt hlt'
    · exact UInt64.lt_irrefl _ (heq' ▸ hlt)
  · rcases h with hlt' | ⟨-, hname'⟩
    · exact UInt64.lt_irrefl _ (heq ▸ hlt')
    · exact String.lt_asymm hname hname'

theorem isLive_iff : p.isLive timeoutSecs now = true ↔ now.toNat ≤ p.lastHeartbeat.toNat + timeoutSecs.toNat := by
  rw [isLive, decide_eq_true_eq]
  omega

theorem findIdx?_isIdle_iff : p.slots.findIdx? (·.isIdle) = some i ↔ p.LowestIdle i := by
  rw [List.findIdx?_eq_some_iff_getElem]
  constructor
  · rintro ⟨hlt, hidle, hbelow⟩
    refine ⟨⟨p.slots[i], List.getElem?_eq_getElem hlt, by simpa [Slot.isIdle] using hidle⟩, fun j s hj hs => ?_⟩
    obtain ⟨hjlt, rfl⟩ := List.getElem?_eq_some_iff.1 hs
    simpa [Slot.isIdle] using hbelow j hj
  · rintro ⟨⟨s, hs, hidle⟩, hbelow⟩
    obtain ⟨hlt, rfl⟩ := List.getElem?_eq_some_iff.1 hs
    refine ⟨hlt, by simpa [Slot.isIdle] using hidle, fun j hj => ?_⟩
    simpa [Slot.isIdle] using hbelow j _ hj (List.getElem?_eq_getElem (by omega))

theorem any_holdsExclusive_iff :
    p.slots.any (·.holdsExclusive) = false ↔ ∀ s ∈ p.slots, s.status ≠ .idle → s.kind ≠ some .planAndApply := by
  rw [List.any_eq_false]
  refine forall₂_congr fun s _ => ?_
  simp [Slot.holdsExclusive, Slot.isIdle]

/-- The slot that a task would get on a pod that was heard of in time. -/
theorem freeSlot?_eq_some_iff : p.freeSlot? kind = some i ↔
    p.LowestIdle i ∧ (kind = .planAndApply → ∀ s ∈ p.slots, s.status ≠ .idle → s.kind ≠ some .planAndApply) := by
  rw [← any_holdsExclusive_iff, ← findIdx?_isIdle_iff, freeSlot?]
  split
  · next hexclusive => simp [hexclusive.1, hexclusive.2]
  · next hnot =>
    refine ⟨fun hfound => ⟨hfound, fun hkind => Bool.eq_false_iff.2 fun hany => hnot ⟨hkind, hany⟩⟩, And.left⟩

theorem exists_freeSlot?_iff :
    p.isLive timeoutSecs now = true ∧ (∃ i, p.freeSlot? kind = some i) ↔ p.Admits timeoutSecs kind now := by
  simp only [isLive_iff, freeSlot?_eq_some_iff, ← findIdx?_isIdle_iff]
  constructor
  · rintro ⟨hheard, i, hidle, halone⟩
    obtain ⟨⟨s, hs, hstatus⟩, -⟩ := findIdx?_isIdle_iff.1 hidle
    exact ⟨hheard, ⟨s, List.mem_of_getElem? hs, hstatus⟩, halone⟩
  · rintro ⟨hheard, ⟨s, hs, hstatus⟩, halone⟩
    cases hfound : p.slots.findIdx? (·.isIdle) with
    | none => exact absurd (List.findIdx?_eq_none_iff.1 hfound s hs) (by simp [Slot.isIdle, hstatus])
    | some i => exact ⟨hheard, i, rfl, halone⟩

theorem olderOrSame_iff : p.olderOrSame q = true ↔ p.Before q ∨ p.createdAt = q.createdAt ∧ p.name = q.name := by
  have hle : p.name ≤ q.name ↔ p.name < q.name ∨ p.name = q.name := by
    refine ⟨fun hle => ?_, fun h => h.elim (fun hlt => String.not_lt.1 (String.lt_asymm hlt)) fun heq => heq ▸ String.le_refl _⟩
    by_cases heq : p.name = q.name
    · exact .inr heq
    · exact .inl (Table.lt_of_not_lt_of_ne (String.not_lt.2 hle) (Ne.symm heq))
  simp only [olderOrSame, Before, Bool.or_eq_true, Bool.and_eq_true, decide_eq_true_eq, beq_iff_eq, hle, and_or_left, or_assoc]

theorem olderOrSame_total (p q : Pod) : p.olderOrSame q = true ∨ q.olderOrSame p = true := by
  simp only [olderOrSame, Bool.or_eq_true, Bool.and_eq_true, decide_eq_true_eq, beq_iff_eq]
  by_cases heq : p.createdAt = q.createdAt
  · exact (String.le_total p.name q.name).imp (fun hle => .inr ⟨heq, hle⟩) fun hle => .inr ⟨heq.symm, hle⟩
  · exact (UInt64.lt_or_lt_of_ne heq).imp .inl .inl

theorem olderOrSame_trans (p q r : Pod) (hpq : p.olderOrSame q = true) (hqr : q.olderOrSame r = true) :
    p.olderOrSame r = true := by
  simp only [olderOrSame, Bool.or_eq_true, Bool.and_eq_true, decide_eq_true_eq, beq_iff_eq] at hpq hqr ⊢
  rcases hpq with hpq | ⟨hpq, hname⟩
  · rcases hqr with hqr | ⟨hqr, -⟩
    · exact .inl (UInt64.lt_trans hpq hqr)
    · exact .inl (hqr ▸ hpq)
  · rcases hqr with hqr | ⟨hqr, hname'⟩
    · exact .inl (hpq ▸ hqr)
    · exact .inr ⟨hpq.trans hqr, String.le_trans hname hname'⟩

end Pod

namespace Capacity

variable {c c' : Capacity} {cfg : CapacitySettings} {pool : String} {kind : TaskKind} {task now : UInt64} {p : Pod} {i : Nat}

/-- The first pod of its pool that admits a task, with the place that the task gets there. -/
structure FirstFit (c : Capacity) (cfg : CapacitySettings) (pool : String) (kind : TaskKind) (now : UInt64) (p : Pod)
    (i : Nat) : Prop where
  held : c.pods.get? p.name = some p
  inPool : p.pool = pool
  admits : p.Admits cfg.heartbeatTimeoutSecs kind now
  first : ∀ name q, c.pods.get? name = some q → q.pool = pool → q.Admits cfg.heartbeatTimeoutSecs kind now → q ≠ p →
    p.Before q
  lowest : p.LowestIdle i

theorem podsIn_sorted (c : Capacity) (pool : String) : (c.podsIn pool).Pairwise fun p q => p.olderOrSame q = true :=
  sortBy_sorted Pod.olderOrSame_total Pod.olderOrSame_trans _

theorem FirstFit.unique {q : Pod} {j : Nat} (hp : c.FirstFit cfg pool kind now p i) (hq : c.FirstFit cfg pool kind now q j) :
    p = q ∧ i = j := by
  have heq : p = q := Classical.byContradiction fun hne =>
    (hp.first _ q hq.held hq.inPool hq.admits (Ne.symm hne)).asymm (hq.first _ p hp.held hp.inPool hp.admits hne)
  subst heq
  exact ⟨rfl, hp.lowest.unique hq.lowest⟩

theorem freeSlotIn?_eq_none_iff : c.freeSlotIn? cfg pool kind now = none ↔
    ∀ name p, c.pods.get? name = some p → p.pool = pool → ¬p.Admits cfg.heartbeatTimeoutSecs kind now := by
  unfold freeSlotIn?
  rw [List.findSome?_eq_none_iff]
  simp only [mem_podsIn, ← Pod.exists_freeSlot?_iff]
  constructor
  · rintro hnone name p hp hpool ⟨hlive, i, hi⟩
    simpa [hlive, hi] using hnone p ⟨⟨name, hp⟩, hpool⟩
  · rintro hnone p ⟨⟨name, hp⟩, hpool⟩
    split
    · next hlive =>
      rw [Option.map_eq_none_iff, Option.eq_none_iff_forall_ne_some]
      exact fun i hi => hnone name p hp hpool ⟨hlive, i, hi⟩
    · rfl

/-- What is found is the first fit: the pods that were passed over do not admit the task. -/
theorem FirstFit.of_freeSlotIn? (hn : c.Named) (h : c.freeSlotIn? cfg pool kind now = some (p, i)) :
    c.FirstFit cfg pool kind now p i := by
  obtain ⟨older, q, younger, hpods, hq, hpassed⟩ := List.findSome?_eq_some_iff.1 h
  split at hq
  case isFalse => cases hq
  next hlive =>
  obtain ⟨j, hfree, heq⟩ := Option.map_eq_some_iff.1 hq
  cases heq
  have hmem : ∀ r, r ∈ c.podsIn pool ↔ r ∈ older ∨ r = p ∨ r ∈ younger := fun r => by simp [hpods]
  obtain ⟨⟨name, hget⟩, hpool⟩ := mem_podsIn.1 ((hmem p).2 (.inr (.inl rfl)))
  have hsorted := hpods ▸ c.podsIn_sorted pool
  refine ⟨hn name p hget ▸ hget, hpool, Pod.exists_freeSlot?_iff.1 ⟨hlive, i, hfree⟩, fun other r hr hrpool hadmits hne => ?_,
    (Pod.freeSlot?_eq_some_iff.1 hfree).1⟩
  rcases (hmem r).1 (mem_podsIn.2 ⟨⟨other, hr⟩, hrpool⟩) with holder | rfl | hyounger
  · obtain ⟨hlive', k, hk⟩ := Pod.exists_freeSlot?_iff.2 hadmits
    exact absurd (hpassed r holder) (by simp [hlive', hk])
  · exact absurd rfl hne
  · have hbefore := (List.pairwise_cons.1 (List.pairwise_append.1 hsorted).2.1).1 r hyounger
    refine (Pod.olderOrSame_iff.1 hbefore).resolve_right fun hsame => hne ?_
    have hname : name = other := (hn name p hget).symm.trans (hsame.2.trans (hn other r hr))
    rw [hname, hr] at hget
    exact Option.some.inj hget

/-! ## Reserving -/

/-- One slot of one pod was reserved for a task, and nothing else changed. -/
structure Binds (c c' : Capacity) (p : Pod) (i : Nat) (task : UInt64) (kind : TaskKind) (now : UInt64) : Prop where
  here : c'.pods.get? p.name = some { p with slots := p.slots.modify i fun s =>
    { s with status := .reserved, task := some task, kind := some kind, updatedAt := now } }
  others : ∀ name, name ≠ p.name → c'.pods.get? name = c.pods.get? name
  nameSeq : c'.nameSeq = c.nameSeq

theorem binds_modifySlot (hp : c.pods.get? p.name = some p) (i : Nat) (task : UInt64) (kind : TaskKind) (now : UInt64) :
    c.Binds (c.modifySlot p.name i (·.bind .reserved task kind now)) p i task kind now where
  here := by
    unfold modifySlot
    rw [Table.get?_modify, if_pos rfl, hp]
    rfl
  others name hne := by
    unfold modifySlot
    rw [Table.get?_modify, if_neg hne.symm]
  nameSeq := rfl

/-- A slot with nothing on it can be reserved. -/
theorem assign_eq (hp : c.pods.get? p.name = some p) (hi : p.LowestIdle i) :
    c.assign p.name i task kind now = .ok (c.modifySlot p.name i (·.bind .reserved task kind now)) := by
  obtain ⟨⟨s, hs, hidle⟩, -⟩ := hi
  unfold assign
  rw [pod?_ok_iff.2 hp]
  simp [bind, Except.bind, hs, Slot.isIdle, hidle, pure, Except.pure]

/-- Whether a task gets a slot in a pool, and which one, does not depend on how it is asked for. -/
theorem allocation_is_first_fit (hn : c.Named) (cfg : CapacitySettings) (pool : String) (task : UInt64) (kind : TaskKind)
    (now : UInt64) :
    ((∃ answer, c.allocate cfg pool task kind now = .ok answer) ↔
      ∃ name p, c.pods.get? name = some p ∧ p.pool = pool ∧ p.Admits cfg.heartbeatTimeoutSecs kind now) ∧
    (∀ place c', c.allocate cfg pool task kind now = .ok (place, c') →
      ∃ p, c.FirstFit cfg pool kind now p place.slot ∧ place.pod = p.name ∧ place.agent = p.agent ∧
        c.Binds c' p place.slot task kind now ∧ c.findFreeSlot cfg pool kind now = .ok (p.name, place.slot)) ∧
    (∀ e, c.allocate cfg pool task kind now = .error e →
      e = .noFreeSlot pool ∧ c.findFreeSlot cfg pool kind now = .error (.noFreeSlot pool)) ∧
    (c.findFreeSlot cfg pool kind now >>= fun found => c.assign found.1 found.2 task kind now) =
      (c.allocate cfg pool task kind now).map (·.2) := by
  unfold allocate findFreeSlot
  cases hfound : c.freeSlotIn? cfg pool kind now with
  | none =>
    have hnone := freeSlotIn?_eq_none_iff.1 hfound
    refine ⟨⟨nofun, ?_⟩, nofun, fun e h => ⟨(Except.error.inj h).symm, rfl⟩, rfl⟩
    rintro ⟨name, p, hp, hpool, hadmits⟩
    exact absurd hadmits (hnone name p hp hpool)
  | some found =>
    obtain ⟨p, i⟩ := found
    have hfit := FirstFit.of_freeSlotIn? hn hfound
    refine ⟨⟨fun _ => ⟨p.name, p, hfit.held, hfit.inPool, hfit.admits⟩, fun _ => ⟨_, rfl⟩⟩, ?_, nofun,
      assign_eq hfit.held hfit.lowest⟩
    rintro place c' h
    cases h
    exact ⟨p, hfit, rfl, rfl, binds_modifySlot hfit.held i task kind now, rfl⟩

/-! ## A pool to choose from -/

/-- The oldest pod was not heard of, the next one has an exclusive task, and two younger ones of one age have room. -/
def mixedPool : Capacity :=
  { pods := .ofList [
      ("a", { name := "a", pool := "p", createdAt := 1, lastHeartbeat := 100, slots := [{ index := 0, updatedAt := 1 }] }),
      ("b", { name := "b", pool := "p", createdAt := 2, lastHeartbeat := 900,
              slots := [({ index := 0, updatedAt := 2 } : Slot).bind .running 4 .planAndApply 5, { index := 1, updatedAt := 2 }] }),
      ("c", { name := "c", pool := "p", createdAt := 3, lastHeartbeat := 900,
              slots := [({ index := 0, updatedAt := 3 } : Slot).bind .reserved 6 .plan 7, { index := 1, updatedAt := 3 }] }),
      ("d", { name := "d", pool := "p", createdAt := 3, lastHeartbeat := 900, slots := [{ index := 0, updatedAt := 3 }] })] }

theorem named_mixedPool : mixedPool.Named := by
  intro name p hp
  have hrow : (name, p) ∈ mixedPool.pods.rows := Table.mem_rows_iff.2 hp
  have hnames : ∀ r ∈ mixedPool.pods.rows, r.2.name = r.1 := by decide +kernel
  exact hnames _ hrow

/-- The second slot of "c" is the one, for an exclusive task as well. -/
theorem allocation_is_first_fit_mixed :
    mixedPool.Named ∧
      ∃ p c', mixedPool.allocate {} "p" 9 .planAndApply 1000 = .ok (⟨"c", 1, none⟩, c') ∧
        mixedPool.FirstFit {} "p" .planAndApply 1000 p 1 ∧ mixedPool.Binds c' p 1 9 .planAndApply 1000 ∧
        mixedPool.findFreeSlot {} "p" .planAndApply 1000 = .ok ("c", 1) ∧
        mixedPool.assign "c" 1 9 .planAndApply 1000 = .ok c' := by
  refine ⟨named_mixedPool, ?_⟩
  obtain ⟨-, hgot, -, hsame⟩ := allocation_is_first_fit named_mixedPool {} "p" 9 .planAndApply 1000
  have hplace : (mixedPool.allocate {} "p" 9 .planAndApply 1000).toOption.map (·.1) = some ⟨"c", 1, none⟩ := by
    decide +kernel
  cases hall : mixedPool.allocate {} "p" 9 .planAndApply 1000 with
  | error e => rw [hall] at hplace; cases hplace
  | ok answer =>
    obtain ⟨place, c'⟩ := answer
    rw [hall] at hplace hsame
    cases hplace
    obtain ⟨p, hfit, hname, -, hbinds, hfree⟩ := hgot _ _ hall
    have hc : p.name = "c" := hname.symm
    rw [hc] at hfree
    rw [hfree] at hsame
    exact ⟨p, c', rfl, hfit, hbinds, hfree, hsame⟩

end Capacity

end TaskFleet
