/-
  TaskFleet.Proofs.Autoscale.Progress — whether a pool grows for exclusive work that no pod takes.

  A pod turns an exclusive task away if it holds another one or has no idle slot, whether its
  slots run or are only reserved. The number of pods to have counts those on which something
  runs and adds the work that could start, so a pod that reservations alone keep busy counts as
  one that is to be had.
  - `Grows`: everything that makes such a pool grow.
  - `Exact`, `exact_snapshot`: the words that scaling goes by and the numbers that they stand for.
  - `refused_work_grows_pools`: the pool grows in these cases and else keeps its size; in
    particular it grows if there is more work than there are such pods (`Pod.isKept`).
  - `kept_pod_stops_growth`: an apply that waits for its operator keeps the only pod, another
    workspace's exclusive task waits, and the pool is not scaled.
-/

import TaskFleet.Autoscale.Cycle
import TaskFleet.Proofs.Store.Queries

namespace TaskFleet

/-! ## Pods that turn an exclusive task away -/

/-- Nothing runs on the pod, but what is reserved on it turns an exclusive task away: another one,
    or all there is. -/
def Pod.isKept (p : Pod) : Bool :=
  !p.hasRunning && (p.slots.any (fun s => s.status == .reserved && s.kind == some .planAndApply) ||
    p.slots.all (·.status == .reserved))

theorem Pod.isKept_of_refuses {p : Pod} (h : p.freeSlot? .planAndApply = none) : p.isKept = !p.hasRunning := by
  unfold isKept
  cases hrun : p.hasRunning with
  | true => rfl
  | false =>
    have hnone : ∀ s ∈ p.slots, s.status ≠ .running := by
      intro s hs he
      have hany := List.any_eq_false.1 hrun s hs
      rw [he] at hany
      exact hany rfl
    have hreserved : ∀ s ∈ p.slots, s.isIdle = false → s.status = .reserved := by
      intro s hs hbusy
      unfold Slot.isIdle at hbusy
      cases hst : s.status with
      | idle => rw [hst] at hbusy; cases hbusy
      | reserved => rfl
      | running => exact absurd hst (hnone s hs)
    simp only [Bool.not_false, Bool.true_and, Bool.or_eq_true, List.any_eq_true, List.all_eq_true]
    unfold freeSlot? at h
    split at h
    · next hheld =>
      obtain ⟨s, hs, hexclusive⟩ := List.any_eq_true.1 hheld.2
      unfold Slot.holdsExclusive at hexclusive
      simp only [Bool.and_eq_true, Bool.not_eq_true'] at hexclusive
      exact .inl ⟨s, hs, by simp [hreserved s hs hexclusive.1, hexclusive.2]⟩
    · right
      intro s hs
      have hbusy := List.findIdx?_eq_none_iff.1 h s hs
      simp [hreserved s hs hbusy]

/-! ## Counting work -/

namespace PoolWorkload

/-- Exclusive work that could start is work that could start, and that is work that waits. -/
def Nested (w : PoolWorkload) : Prop := w.unblockedPendingApply ≤ w.unblockedPending ∧ w.unblockedPending ≤ w.pending

theorem Nested.count {w : PoolWorkload} (h : w.Nested) (busy : List String) (t : Task) : (w.count busy t).Nested := by
  obtain ⟨happly, hpending⟩ := h
  unfold Nested PoolWorkload.count
  cases t.status with
  | pending =>
    have hkind : ((!busy.contains t.workspace) && t.kind == .planAndApply).toNat ≤ (!busy.contains t.workspace).toNat := by
      cases busy.contains t.workspace <;> cases t.kind <;> decide
    have hone : (!busy.contains t.workspace).toNat ≤ 1 := Bool.toNat_le _
    simp only
    omega
  | _ => exact ⟨happly, hpending⟩

theorem Nested.countAll {w : PoolWorkload} (h : w.Nested) (busy : List String) (ts : List Task) :
    (w.countAll busy ts).Nested := by
  induction ts generalizing w busy with
  | nil => exact h
  | cons t ts ih => exact ih (h.count busy t) _

end PoolWorkload

theorem Store.nested_poolWorkload {s : Store} {pool : String} {work : PoolWorkload} (h : s.poolWorkload pool = .ok work) :
    work.Nested := by
  have hempty : PoolWorkload.Nested {} := ⟨Nat.le_refl 0, Nat.le_refl 0⟩
  unfold Store.poolWorkload at h
  obtain ⟨members, -, h⟩ := Store.bind_eq_ok h
  split at h
  · cases h
    exact hempty
  · obtain ⟨tasks, -, h⟩ := Store.bind_eq_ok h
    cases h
    exact hempty.countAll [] tasks

/-! ## The number of pods to have -/

/-- Above a number below the upper bound lies what the lower bound or the number itself asks for. -/
theorem lt_clampWord_iff {k n low high : UInt32} (hk : k < high) : k < clampWord n low high ↔ k < n ∨ k < low := by
  unfold clampWord
  simp only [UInt32.lt_iff_toNat_lt] at *
  split
  · omega
  · split <;> omega

theorem clampWord_eq_self {n low high : UInt32} (hlow : low ≤ n) (hhigh : n ≤ high) : clampWord n low high = n := by
  unfold clampWord
  rw [if_neg (UInt32.not_lt.2 hlow), if_neg (UInt32.not_lt.2 hhigh)]

theorem lt_max_iff {k m n : UInt32} : k < max m n ↔ k < m ∨ k < n := by
  simp only [UInt32.lt_iff_toNat_lt]
  show k.toNat < (if m ≤ n then n else m).toNat ↔ _
  split
  · next h =>
    rw [UInt32.le_iff_toNat_le] at h
    omega
  · next h =>
    rw [UInt32.le_iff_toNat_le] at h
    omega

theorem max_eq_of_le {m n : UInt32} (h : n ≤ m) : max m n = m := by
  show (if m ≤ n then n else m) = m
  split
  · next h' => exact UInt32.le_antisymm h h'
  · rfl

namespace PoolSnapshot

variable {v : PoolSnapshot} {cfg : ScalingSettings} {pool : AgentPool}

/-- Exclusive work that could start: a pool never shrinks, and grows unless there are pods for it. -/
theorem wanted_of_waiting (hwaits : 0 < v.unblockedPendingApply) (hpending : v.unblockedPending ≠ 0) :
    v.wanted cfg =
      if v.pods < v.required then v.required else if cfg.growAbove < v.stats.utilization then v.pods + 1 else v.pods := by
  unfold wanted
  simp [hwaits, hpending]

theorem lt_wanted_iff (hwaits : 0 < v.unblockedPendingApply) (hpending : v.unblockedPending ≠ 0)
    (hroom : v.pods < pool.maxReplicas) :
    v.pods < v.wanted cfg ↔ v.pods < v.required ∨ cfg.growAbove < v.stats.utilization := by
  have hmore : v.pods < v.pods + 1 := by
    have hmax := pool.maxReplicas.toNat_lt
    simp only [UInt32.lt_iff_toNat_lt, UInt32.toNat_add, UInt32.toNat_one] at *
    omega
  rw [wanted_of_waiting hwaits hpending]
  split
  · next hrequired => simp [hrequired]
  · next hrequired =>
    split
    · next hgrow => simp [hmore, hgrow]
    · next hgrow => simp [hrequired, hgrow]

/-- Without reservations none of the pods are needed for them. -/
theorem ceilDiv_zero (d : UInt32) : ceilDiv 0 d = 0 := by
  unfold ceilDiv
  simp

/-- The number of pods needed for what is reserved. -/
def forReserved (v : PoolSnapshot) (pool : AgentPool) : UInt32 := ceilDiv v.stats.reserved (max pool.slotsPerPod 1)

theorem desiredPods_of_slots (hpods : v.pods ≠ 0) (hslots : v.stats.total ≠ 0) :
    v.desiredPods pool cfg =
      clampWord (max (v.wanted cfg) (v.forReserved pool)) pool.minReplicas (max pool.maxReplicas pool.minReplicas) := by
  unfold desiredPods forReserved
  rw [if_neg (by simp [hpods, hslots])]
  simp only
  split
  · rfl
  · next hnone =>
    have hzero : v.stats.reserved = 0 := Classical.not_not.1 fun h => hnone (UInt32.pos_iff_ne_zero.2 h)
    rw [hzero, ceilDiv_zero, max_eq_of_le UInt32.zero_le]

/-- What makes a pool grow in which exclusive work waits that could start. -/
theorem lt_desiredPods_iff (hpods : v.pods ≠ 0) (hroom : v.pods < pool.maxReplicas) (hwaits : 0 < v.unblockedPendingApply)
    (hpending : v.unblockedPending ≠ 0) :
    v.pods < v.desiredPods pool cfg ↔
      (v.stats.total ≠ 0 ∧ (v.pods < v.required ∨ cfg.growAbove < v.stats.utilization ∨ v.pods < v.forReserved pool)) ∨
        v.pods < pool.minReplicas := by
  have hmost : v.pods < max pool.maxReplicas pool.minReplicas := lt_max_iff.2 (.inl hroom)
  by_cases hslots : v.stats.total = 0
  · have hone : ¬v.pods < 1 := fun h => hpods (UInt32.lt_one_iff.1 h)
    unfold desiredPods
    rw [if_pos (.inr hslots), lt_clampWord_iff hmost]
    simp only [hslots, ne_eq, not_true_eq_false, false_and, false_or]
    split
    · rw [lt_max_iff]
      simp [hone]
    · simp
  · rw [desiredPods_of_slots hpods hslots, lt_clampWord_iff hmost, lt_max_iff, lt_wanted_iff hwaits hpending hroom]
    simp [hslots, or_assoc]

/-- Otherwise it keeps its size. -/
theorem desiredPods_eq_pods (hpods : v.pods ≠ 0) (hroom : v.pods < pool.maxReplicas) (hwaits : 0 < v.unblockedPendingApply)
    (hpending : v.unblockedPending ≠ 0) (hslots : v.stats.total ≠ 0) (h : ¬v.pods < v.desiredPods pool cfg) :
    v.desiredPods pool cfg = v.pods := by
  rw [lt_desiredPods_iff hpods hroom hwaits hpending] at h
  simp only [hslots, ne_eq, not_false_eq_true, true_and, not_or] at h
  obtain ⟨⟨hrequired, hgrow, hreserved⟩, hleast⟩ := h
  have hmost : v.pods ≤ max pool.maxReplicas pool.minReplicas := UInt32.le_of_lt (lt_max_iff.2 (.inl hroom))
  have hwanted : v.wanted cfg = v.pods := by rw [wanted_of_waiting hwaits hpending, if_neg hrequired, if_neg hgrow]
  rw [desiredPods_of_slots hpods hslots, hwanted, max_eq_of_le (UInt32.not_lt.1 hreserved)]
  exact clampWord_eq_self (UInt32.not_lt.1 hleast) hmost

end PoolSnapshot

/-! ## Growth -/

namespace Autoscale

variable {cfg : ScalingSettings} {pool : AgentPool} {c : Capacity} {s : Store} {work : PoolWorkload}

/-- What makes a pool grow in which exclusive work waits that no pod takes. -/
inductive Grows (cfg : ScalingSettings) (pool : AgentPool) (c : Capacity) (work : PoolWorkload) : Prop
  /-- There are slots, and less pods that reservations alone keep busy than work that could start. -/
  | unkept : (c.slotStats pool.id).total ≠ 0 → (c.podsIn pool.id).countP (·.isKept) < work.unblockedPendingApply →
      Grows cfg pool c work
  /-- Too many of the slots are taken. -/
  | taken : (c.slotStats pool.id).total ≠ 0 → cfg.growAbove < (c.slotStats pool.id).utilization → Grows cfg pool c work
  /-- What is reserved needs more pods. -/
  | reserved : (c.slotStats pool.id).total ≠ 0 →
      (c.podsIn pool.id).length < (ceilDiv (c.slotStats pool.id).reserved (max pool.slotsPerPod 1)).toNat →
      Grows cfg pool c work
  /-- The pool has less than its least number of pods. -/
  | least : (c.podsIn pool.id).length < pool.minReplicas.toNat → Grows cfg pool c work

/-- If every pod turns exclusive tasks away, those on which nothing runs are kept by reservations. -/
theorem countP_isKept (hrefused : ∀ p ∈ c.podsIn pool.id, p.freeSlot? .planAndApply = none) :
    (c.podsIn pool.id).countP (·.hasRunning) + (c.podsIn pool.id).countP (·.isKept) = (c.podsIn pool.id).length := by
  have hkept : (c.podsIn pool.id).countP (·.isKept) = (c.podsIn pool.id).countP (!·.hasRunning) :=
    List.countP_congr fun p hp => by rw [Pod.isKept_of_refuses (hrefused p hp)]
  rw [hkept, List.length_eq_countP_add_countP (·.hasRunning)]
  simp

/-- Scaling goes by words of 32 bits, and these are the numbers that they stand for. -/
structure Exact (c : Capacity) (id : String) (work : PoolWorkload) : Prop where
  pods : (snapshot c id work).pods.toNat = (c.podsIn id).length
  busy : (snapshot c id work).podsWithRunning.toNat = (c.podsIn id).countP (·.hasRunning)
  unblocked : (snapshot c id work).unblockedPending.toNat = work.unblockedPending
  exclusive : (snapshot c id work).unblockedPendingApply.toNat = work.unblockedPendingApply
  sum : (c.podsIn id).countP (·.hasRunning) + work.unblockedPendingApply < UInt32.size

theorem exact_snapshot {id : String} (hnested : work.Nested) (hfits : (c.podsIn id).length + work.pending < UInt32.size) :
    Exact c id work := by
  obtain ⟨happly, hpending⟩ := hnested
  have hcount : (c.podsIn id).countP (·.hasRunning) ≤ (c.podsIn id).length := List.countP_le_length
  constructor
  case sum => omega
  all_goals exact UInt32.toNat_ofNat_of_lt' (by omega)

theorem Exact.toNat_required {id : String} (h : Exact c id work) :
    (snapshot c id work).required.toNat = (c.podsIn id).countP (·.hasRunning) + work.unblockedPendingApply := by
  rw [PoolSnapshot.required, UInt32.toNat_add, h.busy, h.exclusive]
  exact Nat.mod_eq_of_lt h.sum

theorem Exact.unblocked_ne_zero {id : String} (h : Exact c id work) (hwaits : 0 < work.unblockedPending) :
    (snapshot c id work).unblockedPending ≠ 0 := by
  intro hzero
  have hcount := h.unblocked
  rw [hzero, UInt32.toNat_zero] at hcount
  omega

/-- There is more work than pods for it if there is more of it than pods that are kept. -/
theorem lt_required_iff (hrefused : ∀ p ∈ c.podsIn pool.id, p.freeSlot? .planAndApply = none) (h : Exact c pool.id work) :
    (snapshot c pool.id work).pods < (snapshot c pool.id work).required ↔
      (c.podsIn pool.id).countP (·.isKept) < work.unblockedPendingApply := by
  have hcount := countP_isKept hrefused
  rw [UInt32.lt_iff_toNat_lt, h.pods, h.toNat_required]
  omega

theorem grows_iff (hrefused : ∀ p ∈ c.podsIn pool.id, p.freeSlot? .planAndApply = none) (h : Exact c pool.id work) :
    Grows cfg pool c work ↔
      (((snapshot c pool.id work).stats.total ≠ 0 ∧
        ((snapshot c pool.id work).pods < (snapshot c pool.id work).required ∨
          cfg.growAbove < (snapshot c pool.id work).stats.utilization ∨
          (snapshot c pool.id work).pods < (snapshot c pool.id work).forReserved pool)) ∨
        (snapshot c pool.id work).pods < pool.minReplicas) := by
  rw [lt_required_iff hrefused h, UInt32.lt_iff_toNat_lt, UInt32.lt_iff_toNat_lt, h.pods]
  constructor
  · intro h
    cases h with
    | unkept hslots h => exact .inl ⟨hslots, .inl h⟩
    | taken hslots h => exact .inl ⟨hslots, .inr (.inl h)⟩
    | reserved hslots h => exact .inl ⟨hslots, .inr (.inr h)⟩
    | least h => exact .inr h
  · rintro (⟨hslots, h | h | h⟩ | h)
    · exact .unkept hslots h
    · exact .taken hslots h
    · exact .reserved hslots h
    · exact .least h

/-- Exclusive work that no pod takes makes a pool grow in these cases, and only in these: that it
    waits, and that there is room below the upper bound, is not enough. Otherwise the pool keeps
    its size. -/
theorem refused_work_grows_pools (hwork : s.poolWorkload pool.id = .ok work) (hwaits : 0 < work.unblockedPendingApply)
    (hpods : c.podsIn pool.id ≠ []) (hrefused : ∀ p ∈ c.podsIn pool.id, p.freeSlot? .planAndApply = none)
    (hroom : (c.podsIn pool.id).length < pool.maxReplicas.toNat)
    (hfits : (c.podsIn pool.id).length + work.pending < UInt32.size) :
    ((snapshot c pool.id work).pods < (snapshot c pool.id work).desiredPods pool cfg ↔ Grows cfg pool c work) ∧
      ((c.slotStats pool.id).total ≠ 0 → ¬Grows cfg pool c work →
        (snapshot c pool.id work).desiredPods pool cfg = (snapshot c pool.id work).pods) := by
  have hnested := Store.nested_poolWorkload hwork
  have hexact : Exact c pool.id work := exact_snapshot hnested hfits
  -- what the number of pods depends on, in 32 bits
  have hsome : (snapshot c pool.id work).pods ≠ 0 := by
    intro h
    have hcurrent := hexact.pods
    rw [h] at hcurrent
    exact hpods (List.length_eq_zero_iff.1 hcurrent.symm)
  have hbelow : (snapshot c pool.id work).pods < pool.maxReplicas := by
    rw [UInt32.lt_iff_toNat_lt, hexact.pods]
    exact hroom
  have hexclusive : 0 < (snapshot c pool.id work).unblockedPendingApply := by
    rw [UInt32.lt_iff_toNat_lt, hexact.exclusive]
    exact hwaits
  have hunblocked := hexact.unblocked_ne_zero (Nat.lt_of_lt_of_le hwaits hnested.1)
  have hgrows : (snapshot c pool.id work).pods < (snapshot c pool.id work).desiredPods pool cfg ↔ _ :=
    PoolSnapshot.lt_desiredPods_iff hsome hbelow hexclusive hunblocked
  rw [← grows_iff hrefused hexact] at hgrows
  refine ⟨hgrows, fun hslots hno => ?_⟩
  exact PoolSnapshot.desiredPods_eq_pods hsome hbelow hexclusive hunblocked hslots fun h => hno (hgrows.1 h)

/-! ## A pool with one pod -/

def growingPool : AgentPool := { id := "pool", kind := .kubernetes, minReplicas := 0, maxReplicas := 5 }

/-- One workspace's exclusive task has a slot of the only pod, another one's waits. -/
def onePodFor (status : TaskStatus) (slot : SlotStatus) : World :=
  let pod := Pod.fresh "pod" "pool" 3 0 0
  { clock := 0
    store := (({} : Store).putWorkspace { id := "first", mode := .kubernetes, pool := some "pool" }).putWorkspace
        { id := "second", mode := .kubernetes, pool := some "pool" }
      |>.putTask { id := 1, workspace := "first", kind := .planAndApply, status, createdAt := 0 }
      |>.putTask { id := 2, workspace := "second", kind := .planAndApply, status := .pending, createdAt := 0 }
    capacity := ({} : Capacity).insertPod (pod.modifySlot 0 (·.bind slot 1 .planAndApply 0))
    cluster := Cluster.insert {} { name := "pod", pool := "pool", phase := .running, createdAt := 0 } }

/-- What the two tasks ask of the pool while the first one runs. -/
def runningWork : PoolWorkload :=
  { running := 1, pending := 1, unblockedPending := 1, unblockedPendingApply := 1, pendingWorkspaces := ["second"] }

theorem refused_work_grows_pools_one_running :
    (snapshot (onePodFor .running .running).capacity "pool" runningWork).pods <
      (snapshot (onePodFor .running .running).capacity "pool" runningWork).desiredPods growingPool {} :=
  have hwork : (onePodFor .running .running).store.poolWorkload growingPool.id = .ok runningWork := rfl
  (refused_work_grows_pools (c := (onePodFor .running .running).capacity) hwork (by decide) (by decide) (by decide)
    (by decide) (by decide)).1.2 (.unkept (by decide) (by decide))

/-- What they ask of it while the first one waits for its operator. -/
def keptWork : PoolWorkload :=
  { applyPending := 1, applyPendingTasks := [1], pending := 1, unblockedPending := 1, unblockedPendingApply := 1
    pendingWorkspaces := ["second"] }

/-- The pool is in line with the cluster and the store, its only pod turns the waiting task away, and
    one pod is to be had, as before. -/
theorem kept_pod_stops_growth :
    (onePodFor .applyPending .reserved).store.poolWorkload "pool" = .ok keptWork ∧ 0 < keptWork.unblockedPendingApply ∧
    ((Capacity.reconcile {} growingPool).run.run (onePodFor .applyPending .reserved)).1 = .finished (.ok ()) ∧
    ((Capacity.reconcile {} growingPool).run.run (onePodFor .applyPending .reserved)).2.capacity =
      (onePodFor .applyPending .reserved).capacity ∧
    (∀ p ∈ (onePodFor .applyPending .reserved).capacity.podsIn "pool", p.freeSlot? .planAndApply = none) ∧
    (snapshot (onePodFor .applyPending .reserved).capacity "pool" keptWork).pods = 1 ∧ 1 < growingPool.maxReplicas ∧
    (snapshot (onePodFor .applyPending .reserved).capacity "pool" keptWork).desiredPods growingPool {} = 1 :=
  ⟨rfl, by decide, rfl, rfl, by decide, rfl, by decide, by decide⟩

end Autoscale

end TaskFleet
