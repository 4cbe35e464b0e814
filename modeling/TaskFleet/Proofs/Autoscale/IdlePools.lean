/-
  TaskFleet.Proofs.Autoscale.IdlePools — a pool on which nothing is keeps its pods for the work that waits.

  Where work waits and none is under way, some of it could start, and a pool with work that could
  start is not to have less pods than it has. This is the share of taken slots speaking: a freeze and
  the upper bound come after it, and pods without slots count as none.
  - `le_desiredPods_of_unblocked`: the number of pods to have, while there is work that could start.
  - `keepsAll_of_unblocked`: scaling at such a moment.
  - `workload_keeps_idle_pools`: the workload of every pool, and what scaling makes of it.
  - `idle_pools_lose_pods`: the cases in which work that waits does not keep the pods.
-/

import TaskFleet.Proofs.Autoscale.DesiredPods
import TaskFleet.Proofs.Dispatch.SlotLeaks
import TaskFleet.Proofs.Store.PoolWorkload

namespace TaskFleet

/-! ## The number of pods to have -/

namespace PoolSnapshot

open Autoscale

variable {v : PoolSnapshot} {cfg : ScalingSettings} {pool : AgentPool}

/-- Work that could start keeps what pods there are, up to the upper bound. -/
theorem le_desiredPods_of_unblocked (h : v.Fits) (hslots : v.stats.total ≠ 0) (hwithin : v.pods.toNat ≤ ceiling pool)
    (hwaits : v.unblockedPending ≠ 0) : v.pods.toNat ≤ (v.desiredPods pool cfg).toNat := by
  by_cases hpods : v.pods = 0
  · rw [hpods, UInt32.toNat_zero]
    exact Nat.zero_le _
  have hwanted : v.pods.toNat ≤ (v.wanted cfg).toNat :=
    Nat.le_of_not_lt fun hless => hwaits (wanted_of_less cfg h hless).2.1
  rw [toNat_desiredPods_of_slots hpods hslots]
  omega

end PoolSnapshot

namespace Autoscale

open Capacity Program

variable {cfg : Settings} {pool : AgentPool} {others : World → World → Prop} [IsPreorder World others] {n : Nat}
  {w w' : World} {work : PoolWorkload}

/-! ## Scaling -/

/-- The pool may keep its pods: it is not frozen and not over its ceiling, its pods have slots, and
    the pods and the tasks are few enough for their numbers to be added up. -/
structure MayKeep (pool : AgentPool) (w : World) (work : PoolWorkload) : Prop where
  opened : ¬FrozenAt pool w
  within : WithinCeiling pool w
  slots : (w.capacity.slotStats pool.id).total ≠ 0
  fits : w.capacity.podCount pool.id + work.pending < UInt32.size

theorem MayKeep.le_desiredPods (h : MayKeep pool w work) (hnested : work.Nested) (hunblocked : 0 < work.unblockedPending)
    (cfg : ScalingSettings) : (snapshot w.capacity pool.id work).pods.toNat ≤
      ((snapshot w.capacity pool.id work).desiredPods pool cfg).toNat := by
  have hfits := h.fits
  rw [← length_podsIn] at hfits
  have hexact : Exact w.capacity pool.id work := exact_snapshot hnested hfits
  have hpods : (snapshot w.capacity pool.id work).pods.toNat ≤ ceiling pool :=
    hexact.pods ▸ length_podsIn w.capacity pool.id ▸ h.within
  have hpending : 0 < work.pending := Nat.lt_of_lt_of_le hunblocked hnested.2
  have hsums : (snapshot w.capacity pool.id work).Fits :=
    ⟨by rw [hexact.pods]; omega, by rw [hexact.busy, hexact.exclusive]; exact hexact.sum⟩
  exact PoolSnapshot.le_desiredPods_of_unblocked hsums h.slots hpods (hexact.unblocked_ne_zero hunblocked)

theorem keepsAll_of_unblocked {r : Except String (Except ScalingError (UInt32 × Bool))}
    (ho : ∀ s s', others s s' → Elsewhere s s') (hs : ∀ s s', others s s' → SameSeason pool s s')
    (hwork : w.store.poolWorkload pool.id = .ok work) (hunblocked : 0 < work.unblockedPending) (hkeep : MayKeep pool w work)
    (he : Ends others n (scaleReconciled cfg pool).run w r w') : KeepsAll w w' := by
  rcases ends_scaleReconciled_open ho hs hkeep.opened he with hkept | ⟨work', v, n', w₁, hwork', rfl, hless, -, -⟩
  · exact hkept
  · rw [hwork] at hwork'
    cases hwork'
    exact absurd (UInt32.lt_iff_toNat_lt.1 hless) (Nat.not_lt.2 (hkeep.le_desiredPods (Store.nested_poolWorkload hwork) hunblocked cfg.scaling))

/-- The workload of a pool is what the rows say, unless a row that has to be read for it is no
    record: the tasks in each status, those that wait for their apply by ascending ID, the workspaces
    whose first active task is pending, and the workspaces with a pending task in the order of their
    first one. So where work waits and none is under way, some of it could start; and then scaling
    takes no pod from a pool that may keep them, while others leave records and pods alone. -/
theorem workload_keeps_idle_pools (cfg : Settings) (pool : AgentPool) (hf : Dispatch.Filed w.store) :
    (∀ id, w.store.Damaged id ∧ w.store.poolWorkload id = .error .unreadable ∨
      ¬w.store.Damaged id ∧ ∃ work, w.store.poolWorkload id = .ok work ∧ w.store.Summarizes id work ∧
        (0 < work.pending → work.running = 0 → work.applyPending = 0 → 0 < work.unblockedPending)) ∧
    ∀ work, w.store.poolWorkload pool.id = .ok work → 0 < work.pending → work.running = 0 → work.applyPending = 0 →
      MayKeep pool w work → ∀ (others : World → World → Prop) [IsPreorder World others],
        (∀ s s', others s s' → Elsewhere s s' ∧ SameSeason pool s s') →
        ∀ n r w', Ends others n (scaleReconciled cfg pool).run w r w' → KeepsAll w w' := by
  constructor
  · intro id
    by_cases hdamaged : w.store.Damaged id
    · exact .inl ⟨hdamaged, Store.poolWorkload_of_damaged hdamaged⟩
    · obtain ⟨work, hwork, hsummary⟩ := Store.poolWorkload_of_readable hf hdamaged
      exact .inr ⟨hdamaged, work, hwork, hsummary, hsummary.unblocked_pos⟩
  · intro work hwork hpending hrunning happly hkeep others _ ho n r w' he
    have hreadable : ¬w.store.Damaged pool.id := fun hdamaged => by
      rw [Store.poolWorkload_of_damaged hdamaged] at hwork
      cases hwork
    obtain ⟨work', hwork', hsummary⟩ := Store.poolWorkload_of_readable hf hreadable
    rw [hwork] at hwork'
    cases hwork'
    exact keepsAll_of_unblocked (fun s s' h => (ho s s' h).1) (fun s s' h => (ho s s' h).2) hwork
      (hsummary.unblocked_pos hpending hrunning happly) hkeep he

/-! ## Pools with idle pods -/

/-- Two workspaces wait for a pod of their own, and there is one. -/
def twoWaiting : World :=
  { onePodFor .pending .reserved with capacity := ({} : Capacity).insertPod (Pod.fresh "pod" "pool" 3 0 0) }

def twoWaitingWork : PoolWorkload :=
  { pending := 2, unblockedPending := 2, unblockedPendingApply := 2, pendingWorkspaces := ["first", "second"] }

theorem filed_twoWaiting : Dispatch.Filed twoWaiting.store := by
  refine Dispatch.filed_of_keyed ?_
  unfold twoWaiting onePodFor
  iterate 2 apply Store.Keyed.setTask
  exact Store.keyed_empty.congr rfl

theorem mayKeep_twoWaiting : MayKeep growingPool twoWaiting twoWaitingWork where
  opened := by
    rintro ⟨t, -, hfrozen⟩
    cases hfrozen
  within := by unfold WithinCeiling; decide
  slots := by decide
  fits := by decide

theorem workload_keeps_idle_pools_two_waiting :
    twoWaiting.store.Summarizes "pool" twoWaitingWork ∧
    ∃ w', (scaleReconciled anySettings growingPool).run.run twoWaiting = (.finished (.ok (2, true)), w') ∧
      KeepsAll twoWaiting w' := by
  obtain ⟨w', hrun⟩ : ∃ w', (scaleReconciled anySettings growingPool).run.run twoWaiting = (.finished (.ok (2, true)), w') :=
    ⟨_, rfl⟩
  obtain ⟨n, he⟩ : ∃ n, Ends Eq n (scaleReconciled anySettings growingPool).run twoWaiting (.ok (.ok (2, true))) w' :=
    Ends.of_run hrun
  have hwork : twoWaiting.store.poolWorkload "pool" = .ok twoWaitingWork := rfl
  have ho : ∀ s s' : World, s = s' → Elsewhere s s' ∧ SameSeason growingPool s s' := fun _ _ h =>
    h ▸ ⟨refl_of Elsewhere _, refl_of (SameSeason growingPool) _⟩
  obtain ⟨hmeaning, hkeeps⟩ := workload_keeps_idle_pools anySettings growingPool filed_twoWaiting
  refine ⟨?_, w', hrun, hkeeps twoWaitingWork hwork (by decide) rfl rfl mayKeep_twoWaiting Eq ho n _ w' he⟩
  rcases hmeaning "pool" with ⟨-, herror⟩ | ⟨-, work, hwork', hsummary, -⟩
  · cases hwork.symm.trans herror
  · cases hwork.symm.trans hwork'
    exact hsummary

/-- Work waits for the pool and none is under way, but scaling takes a pod away. -/
def LosesPods (pool : AgentPool) (w : World) : Prop :=
  ∃ work r w', w.store.poolWorkload pool.id = .ok work ∧ 0 < work.pending ∧ work.running = 0 ∧ work.applyPending = 0 ∧
    0 < work.unblockedPending ∧ (scaleReconciled anySettings pool).run.run w = (.finished (.ok r), w') ∧ ¬KeepsAll w w'

/-- A plan waits, and there are two pods with so many slots. -/
def twoIdle (slots : UInt32) : World :=
  { clock := 0
    store := (({} : Store).putWorkspace smallWorkspace).putTask
      { id := 1, kind := .plan, workspace := "ws", status := .pending, createdAt := 0 }
    capacity := (({} : Capacity).insertPod (Pod.fresh "one" "pool" slots 0 0)).insertPod (Pod.fresh "two" "pool" slots 0 0)
    cluster := Cluster.insert (Cluster.insert {} { name := "one", pool := "pool", phase := .running, createdAt := 0 })
      { name := "two", pool := "pool", phase := .running, createdAt := 0 } }

/-- Each of two tasks that wait for their apply is under the other one's key. -/
def misfiled : Store :=
  let waiting (id : UInt64) : Task := { id, kind := .plan, workspace := "ws", status := .applyPending, createdAt := 0 }
  { workspaces := .insert .empty "ws" (.record smallWorkspace)
    tasks := (Table.insert .empty (taskKey 1) (.record (waiting 2))).insert (taskKey 2) (.record (waiting 1)) }

/-- Frozen pools, pools over their ceiling and pools whose pods have no slots lose pods although work
    waits; and where tasks are not under their own keys, IDs do not come in their order. -/
theorem idle_pools_lose_pods : LosesPods frozenPool (twoIdle 1) ∧ LosesPods closedPool (twoIdle 1) ∧
    LosesPods growingPool (twoIdle 0) ∧
    ∃ work, misfiled.poolWorkload "pool" = .ok work ∧ ¬work.applyPendingTasks.Pairwise (· < ·) := by
  have hlost : ∀ {w w' : World}, w.capacity.pods.contains "one" = true → w'.capacity.pods.contains "one" = false →
      ¬KeepsAll w w' := fun hone hgone h => by
    rw [h "one" hone] at hgone
    cases hgone
  refine ⟨⟨_, _, _, rfl, by decide, rfl, rfl, by decide, rfl, hlost rfl rfl⟩, ?_,
    ⟨_, _, _, rfl, by decide, rfl, rfl, by decide, rfl, hlost rfl rfl⟩, ⟨_, rfl, by decide⟩⟩
  -- shares of slots are not computed here, where every pod is one too many
  unfold LosesPods
  rw [scaleReconciled_of_none (show ceiling closedPool = 0 from rfl)]
  exact ⟨_, _, _, rfl, by decide, rfl, rfl, by decide, rfl, hlost rfl rfl⟩

end Autoscale

end TaskFleet
