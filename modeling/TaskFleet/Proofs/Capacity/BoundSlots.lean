/-
  TaskFleet.Proofs.Capacity.BoundSlots — which slots have a task on them, and which run for nobody.

  The operations of the pool write slots by their pod and place. Binding a slot, clearing it and
  keeping it for its task leave status, task and kind in agreement. Marking a slot as running
  does not look at it, so that a mark which comes when the slot was given back makes it run for
  nobody, and nothing frees it from then on.
  - `SoundSlot`, `SoundSlots`: what a slot and its pod owe to the run so far; `SoundSlots.step`.
  - `slotStats_eq`: the statistics of a pool count its slots.
  - `slots_are_bound_or_marked_late`: the slots in every run of the operations.
  - `late_mark_runs_for_nobody`: the mark that comes too late.
-/

import TaskFleet.Proofs.Capacity.FreedSlots
import TaskFleet.Proofs.Capacity.PoolCalls

namespace TaskFleet

namespace Capacity

variable {c c' : Capacity} {x y : Spot} {s s' : Slot} {l : List (Step World)} {e : Step World} {call : PoolCall}
  {task now : UInt64} {kind : TaskKind}

/-! ## What the slots owe to the run -/

/-- A slot that was idle is marked as running. -/
structure MarksIdle (x : Spot) (e : Step World) : Prop where
  idle : ∃ s, e.before.capacity.slotAt x = some s ∧ s.status = .idle
  marked : ∃ now, e.after.capacity = e.before.capacity.modifySlot x.pod x.slot (·.markRunning now)

def RunsForNobody (x : Spot) (w : World) : Prop :=
  ∃ s, w.capacity.slotAt x = some s ∧ s.status = .running ∧ s.task = none ∧ s.kind = none

/-- The slot has been running for nobody since it was marked while it was idle. -/
def MarkedLate (x : Spot) (l : List (Step World)) : Prop := Since (MarksIdle x) (RunsForNobody x) l

/-- A pod of this name with so many slots is put under management. -/
def AddsPod (name : String) (slots : Nat) (e : Step World) : Prop :=
  ∃ p, e.after.capacity.pods.get? name = some p ∧ Adds e.before.capacity e.after.capacity name p ∧ p.slots.length = slots

def HasPod (name : String) (slots : Nat) (w : World) : Prop :=
  ∃ p, w.capacity.pods.get? name = some p ∧ p.slots.length = slots

/-- Status, task and kind agree, unless the slot was marked late. -/
structure SoundSlot (l : List (Step World)) (x : Spot) (s : Slot) : Prop where
  index : s.index = x.slot
  kind : s.kind = none ↔ s.task = none
  idle : s.status = .idle → s.task = none
  bound : s.task = none → s.status = .idle ∨ (s.status = .running ∧ MarkedLate x l)

structure SoundSlots (c : Capacity) (l : List (Step World)) : Prop where
  slots : ∀ x s, c.slotAt x = some s → SoundSlot l x s
  sizes : ∀ name p, c.pods.get? name = some p → Since (AddsPod name p.slots.length) (HasPod name p.slots.length) l

/-! ## Single steps -/

theorem SoundSlot.same (h : SoundSlot l x s) (hafter : e.after.capacity.slotAt x = some s) : SoundSlot (l ++ [e]) x s where
  index := h.index
  kind := h.kind
  idle := h.idle
  bound := by
    intro htask
    rcases h.bound htask with hidle | ⟨hrunning, hlate⟩
    · exact .inl hidle
    · -- nothing happened to the slot, so the late mark still stands
      exact .inr ⟨hrunning, hlate.snoc ⟨s, hafter, hrunning, htask, h.kind.2 htask⟩⟩

theorem soundSlot_free (hindex : s.index = x.slot) (h : s.IsFree) : SoundSlot l x s where
  index := hindex
  kind := ⟨fun _ => h.task, fun _ => h.kind⟩
  idle := fun _ => h.task
  bound := fun _ => .inl h.status

theorem SoundSlot.tidied (h : SoundSlot l x s) (ht : s.Tidied s') (hafter : e.after.capacity.slotAt x = some s') :
    SoundSlot (l ++ [e]) x s' := by
  cases ht with
  | same => exact h.same hafter
  | cleared now => exact soundSlot_free h.index (s.isFree_clear now)
  | kept now hbound => exact ⟨h.index, h.kind, nofun, fun htask => absurd htask hbound⟩

theorem SoundSlot.bind (h : SoundSlot l x s) (task : UInt64) (kind : TaskKind) (now : UInt64) :
    SoundSlot (l ++ [e]) x (s.bind .reserved task kind now) where
  index := h.index
  kind := ⟨nofun, nofun⟩
  idle := nofun
  bound := nofun

/-- A slot that is marked runs for its task, or was idle or marked late. -/
theorem SoundSlot.markRunning (h : SoundSlot l x s) (hs : e.before.capacity.slotAt x = some s)
    (he : e.after.capacity = e.before.capacity.modifySlot x.pod x.slot (·.markRunning now)) :
    SoundSlot (l ++ [e]) x (s.markRunning now) where
  index := h.index
  kind := h.kind
  idle := nofun
  bound := by
    intro htask
    have hnobody : RunsForNobody x e.after := by
      refine ⟨s.markRunning now, ?_, rfl, htask, h.kind.2 htask⟩
      rw [he]
      exact slotAt_modifySlot_self hs
    rcases h.bound htask with hidle | ⟨-, hlate⟩
    · exact .inr ⟨rfl, since_now l ⟨⟨s, hs, hidle⟩, ⟨now, he⟩⟩ hnobody⟩
    · exact .inr ⟨rfl, hlate.snoc hnobody⟩

theorem SoundSlots.modifySlot {f : Slot → Slot} (h : SoundSlots e.before.capacity l)
    (he : e.after.capacity = e.before.capacity.modifySlot y.pod y.slot f)
    (hf : ∀ s, e.before.capacity.slotAt y = some s → SoundSlot l y s → SoundSlot (l ++ [e]) y (f s)) :
    SoundSlots e.after.capacity (l ++ [e]) where
  slots := by
    intro x s' hs'
    have hs := hs'
    rw [he, slotAt_modifySlot] at hs
    split at hs
    · next hx =>
      obtain ⟨s, hat, rfl⟩ := Option.map_eq_some_iff.1 hs
      subst hx
      exact hf s hat (h.slots x s hat)
    · exact (h.slots x s' hs).same hs'
  sizes := by
    intro name p' hp'
    have hp := hp'
    rw [he] at hp
    unfold Capacity.modifySlot at hp
    rw [Table.get?_modify] at hp
    have hbefore : ∃ p, e.before.capacity.pods.get? name = some p ∧ p'.slots.length = p.slots.length := by
      split at hp
      · obtain ⟨p, hget, rfl⟩ := Option.map_eq_some_iff.1 hp
        exact ⟨p, hget, List.length_modify ..⟩
      · exact ⟨p', hp, rfl⟩
    obtain ⟨p, hget, hlength⟩ := hbefore
    have hsince := h.sizes name p hget
    rw [← hlength] at hsince
    exact hsince.snoc ⟨p', hp', rfl⟩

theorem SoundSlots.tidies (h : SoundSlots e.before.capacity l) (ht : Tidies e.before.capacity e.after.capacity) :
    SoundSlots e.after.capacity (l ++ [e]) where
  slots := by
    intro x s' hs'
    rcases ht.slotAt hs' with ⟨since, rfl⟩ | ⟨s, hs, htidied⟩
    · exact soundSlot_free rfl ⟨rfl, rfl, rfl⟩
    · exact (h.slots x s hs).tidied htidied hs'
  sizes := by
    intro name p' hp'
    rcases ht name p' hp' with hadds | ⟨p, hp, htidied⟩
    · exact since_now l ⟨p', hp', hadds, rfl⟩ ⟨p', hp', rfl⟩
    · have hsince := h.sizes name p hp
      rw [← htidied.length] at hsince
      exact hsince.snoc ⟨p', hp', rfl⟩

theorem SoundSlots.step (h : SoundSlots e.before.capacity l) (hb : e.before.capacity = c) (ha : e.after.capacity = c')
    (hstep : PoolStep call c c') : SoundSlots e.after.capacity (l ++ [e]) := by
  cases hstep with
  | tidy ht => exact h.tidies (hb ▸ ha ▸ ht)
  | assign now => exact h.modifySlot (hb ▸ ha) fun s _ hs => hs.bind _ _ now
  | allocate y now => exact h.modifySlot (hb ▸ ha) fun s _ hs => hs.bind _ _ now
  | allocateOnAgent y now => exact h.modifySlot (hb ▸ ha) fun s _ hs => hs.bind _ _ now
  | markRunning now => exact h.modifySlot (hb ▸ ha) fun s hat hs => hs.markRunning hat (hb ▸ ha)
  | reserve now => exact h.modifySlot (hb ▸ ha) fun s _ hs => hs.bind _ _ now
  | reserveTask y now => exact h.modifySlot (hb ▸ ha) fun s _ hs => hs.bind _ _ now

/-! ## Statistics -/

theorem foldl_countSlot (slots : List Slot) (st : SlotStats) :
    slots.foldl SlotStats.countSlot st =
      ⟨st.total + UInt32.ofNat slots.length, st.used + UInt32.ofNat (slots.countP (·.status == .running)),
        st.reserved + UInt32.ofNat (slots.countP (·.status == .reserved)),
        st.idle + UInt32.ofNat (slots.countP (·.status == .idle))⟩ := by
  induction slots generalizing st with
  | nil => simp
  | cons s rest ih =>
    rw [List.foldl_cons, ih]
    have hone : UInt32.ofNat 1 = 1 := rfl
    unfold SlotStats.countSlot
    cases hst : s.status <;> simp [hst, UInt32.ofNat_add, hone, UInt32.add_assoc, UInt32.add_comm]

/-- The statistics count the slots of the pool, and those in each status. -/
theorem slotStats_eq (c : Capacity) (pool : String) :
    let slots := (c.podsIn pool).flatMap (·.slots)
    c.slotStats pool =
      ⟨UInt32.ofNat slots.length, UInt32.ofNat (slots.countP (·.status == .running)),
        UInt32.ofNat (slots.countP (·.status == .reserved)), UInt32.ofNat (slots.countP (·.status == .idle))⟩ := by
  unfold slotStats
  rw [foldl_countSlot]
  simp

theorem countP_statuses (slots : List Slot) :
    slots.countP (·.status == .running) + slots.countP (·.status == .reserved) + slots.countP (·.status == .idle) =
      slots.length := by
  induction slots with
  | nil => rfl
  | cons s rest ih =>
    rw [List.length_cons, List.countP_cons, List.countP_cons, List.countP_cons]
    cases s.status <;> simp <;> omega

theorem slotStats_sum (c : Capacity) (pool : String) :
    (c.slotStats pool).used + (c.slotStats pool).reserved + (c.slotStats pool).idle = (c.slotStats pool).total := by
  rw [slotStats_eq]
  simp only [← UInt32.ofNat_add, countP_statuses]

/-! ## Runs -/

/-- The task of a slot gives it back. When the task is completed, the call that is made then clears
    a slot that the task is on, this one if it is on no other; and when it is over or gone, a
    reconciliation of the pod's pool frees this slot. -/
structure ComesFree (c : Capacity) (x : Spot) (task : UInt64) : Prop where
  completion : ∀ w : World, w.capacity = c → ∃ y, c.taskAt y = some task ∧ (releaseTask task).run.run w =
    (.finished (.ok true), { w with capacity := c.modifySlot y.pod y.slot (·.clear w.now) })
  reconciliation : ∀ (cfg : CapacitySettings) (pool : AgentPool) (w : World) (p : Pod), w.capacity = c →
    c.pods.get? x.pod = some p → p.pool = pool.id → w.store.Keyed → w.cluster.listFault = none →
    w.cluster.deleteFault ≠ some .unanswered → w.store.IsOver task →
    ∃ w', (reconcile cfg pool).run.run w = (.finished (.ok ()), w') ∧ FreeAt x w'.capacity

theorem comesFree_of_taskAt (hn : c.Named) (hx : c.taskAt x = some task) : ComesFree c x task where
  completion := by
    rintro w rfl
    exact releaseTask_frees hn hx
  reconciliation := by
    rintro cfg pool w p rfl hp hpool hs hlist hanswer hover
    exact reconcile_frees cfg hs hlist hanswer hn hp hpool hx hover

theorem PoolRun.sound {first : World} {c : Scene World (List (Step World))} {crew : List (Program World Unit)}
    (hempty : ∀ name, first.capacity.pods.get? name = none) (hrun : PoolRun (fun _ => True) first c crew) :
    c.state.capacity.Named ∧ SoundSlots c.state.capacity c.memory := by
  have hidle : ∀ (e : Step World) (l : List (Step World)), e.before.capacity.Named → SoundSlots e.before.capacity l →
      e.after.capacity = e.before.capacity → SoundSlots e.after.capacity (l ++ [e]) :=
    fun _ _ _ h hsame => h.tidies (hsame ▸ Tidies.refl _)
  refine hrun.invariant hempty ?_ (fun call e l _ _ h hstep => h.step rfl rfl hstep) hidle
    fun c d hout hn h => hout.keeps hn h hidle
  refine ⟨fun x s hs => ?_, fun name p hp => ?_⟩
  · rw [slotAt_of_empty hempty] at hs
    cases hs
  · rw [hempty] at hp
    cases hp

/-- In every run of the operations of the pool from a pool without pods, whatever their arguments and
    settings and in whatever order they take their steps: each pod has the number of slots with which it was put
    under management, the slots are numbered from zero on, and a slot is idle if and only if it has no
    task and no kind. The statistics of each pool add up, and every slot that is not idle has a task
    that gives it back. The one exception is a slot that was marked as running while it was idle,
    and has been running for nobody since. -/
theorem slots_are_bound_or_marked_late {first : World} {c : Scene World (List (Step World))}
    {crew : List (Program World Unit)} (hempty : ∀ name, first.capacity.pods.get? name = none)
    (hrun : PoolRun (fun _ => True) first c crew) :
    (∀ name p, c.state.capacity.pods.get? name = some p →
      p.name = name ∧ Since (AddsPod name p.slots.length) (HasPod name p.slots.length) c.memory) ∧
    (∀ x s, c.state.capacity.slotAt x = some s →
      s.index = x.slot ∧ (s.task = none ↔ s.kind = none) ∧
        ((s.status = .idle ↔ s.task = none ∧ s.kind = none) ∨
          (s.status = .running ∧ s.task = none ∧ MarkedLate x c.memory))) ∧
    (∀ pool, (c.state.capacity.slotStats pool).used + (c.state.capacity.slotStats pool).reserved +
      (c.state.capacity.slotStats pool).idle = (c.state.capacity.slotStats pool).total) ∧
    (∀ x s, c.state.capacity.slotAt x = some s → s.status ≠ .idle →
      (∃ task, s.task = some task ∧ ComesFree c.state.capacity x task) ∨
        (s.status = .running ∧ s.task = none ∧ MarkedLate x c.memory)) := by
  obtain ⟨hn, hsound⟩ := hrun.sound hempty
  refine ⟨fun name p hp => ⟨hn name p hp, hsound.sizes name p hp⟩, fun x s hs => ?_, slotStats_sum _, fun x s hs hbusy => ?_⟩
  · have h := hsound.slots x s hs
    refine ⟨h.index, h.kind.symm, ?_⟩
    by_cases htask : s.task = none
    · rcases h.bound htask with hidle | ⟨hrunning, hlate⟩
      · exact .inl ⟨fun _ => ⟨htask, h.kind.2 htask⟩, fun _ => hidle⟩
      · exact .inr ⟨hrunning, htask, hlate⟩
    · exact .inl ⟨fun hidle => absurd (h.idle hidle) htask, fun hfree => absurd hfree.1 htask⟩
  · have h := hsound.slots x s hs
    cases htask : s.task with
    | none => exact .inr ((h.bound htask).resolve_left hbusy |>.imp_right fun hlate => ⟨rfl, hlate⟩)
    | some task =>
      refine .inl ⟨task, rfl, comesFree_of_taskAt hn ?_⟩
      unfold taskAt
      rw [hs]
      exact htask

/-! ## A mark that comes too late -/

/-- A pod was created, and its slot reserved for a task. -/
def slotAllocated : World :=
  (((PoolCall.allocate "pool" 1 .plan).program {}).run (((PoolCall.createPod (smallPool 1)).program {}).run { clock := 0 }).2).2

theorem run_slotAllocated : ∃ m crew, PoolRun (fun _ => True) { clock := 0 } ⟨slotAllocated, m⟩ crew := by
  have hstart : PoolRun (fun _ => True) { clock := 0 } ⟨{ clock := 0 }, []⟩ [] := .start
  obtain ⟨m, crew, hcreated⟩ := hstart.call {} (.createPod (smallPool 1)) trivial rfl
  exact hcreated.call {} (.allocate "pool" 1 .plan) trivial rfl

/-- The reserved slot names its task, which gives it back. -/
theorem slots_are_bound_or_marked_late_slot_reserved :
    ∃ m crew, PoolRun (fun _ => True) { clock := 0 } ⟨slotAllocated, m⟩ crew ∧
      slotAllocated.capacity.slotAt firstSlot = some ⟨0, .reserved, some 1, some .plan, 0⟩ ∧
      ComesFree slotAllocated.capacity firstSlot 1 := by
  obtain ⟨m, crew, hrun⟩ := run_slotAllocated
  obtain ⟨-, -, -, hbound⟩ := slots_are_bound_or_marked_late (fun _ => rfl) hrun
  have hslot : slotAllocated.capacity.slotAt firstSlot = some ⟨0, .reserved, some 1, some .plan, 0⟩ := rfl
  refine ⟨m, crew, hrun, hslot, ?_⟩
  rcases hbound firstSlot _ hslot nofun with ⟨task, htask, hfree⟩ | ⟨hrunning, -⟩
  · cases htask
    exact hfree
  · cases hrunning

/-- The slot was given back before the task was started on it, and then marked as running. -/
def markedLate : World :=
  (((PoolCall.markRunning firstSlot).program {}).run (((PoolCall.release firstSlot).program {}).run slotAllocated).2).2

/-- It runs without a task and counts as used. A reconciliation a day later, with a store in which the
    task is gone, leaves it so, completing the task frees nothing, and its pod is not given up. -/
theorem late_mark_runs_for_nobody :
    ∃ m crew w', PoolRun (fun _ => True) { clock := 0 } ⟨markedLate, m⟩ crew ∧
      markedLate.capacity.slotAt firstSlot = some ⟨0, .running, none, none, 0⟩ ∧
      (markedLate.capacity.slotStats "pool").used = 1 ∧
      (reconcile {} (smallPool 1)).run.run { markedLate with clock := 86401000 } = (.finished (.ok ()), w') ∧
      w'.capacity.slotAt firstSlot = some ⟨0, .running, none, none, 0⟩ ∧
      (releaseTask 1).run.run w' = (.finished (.ok false), w') ∧
      w'.capacity.removeIdle firstSlot.pod = .error (.podBusy firstSlot.pod) := by
  obtain ⟨m, crew, hrun⟩ := run_slotAllocated
  obtain ⟨m₁, crew₁, hreleased⟩ := hrun.call {} (.release firstSlot) trivial rfl
  obtain ⟨m₂, crew₂, hmarked⟩ := hreleased.call {} (.markRunning firstSlot) trivial rfl
  exact ⟨m₂, crew₂, _, hmarked, rfl, rfl, rfl, rfl, rfl, rfl⟩

end Capacity

end TaskFleet
