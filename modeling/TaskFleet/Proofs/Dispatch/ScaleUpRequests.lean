/-
  TaskFleet.Proofs.Dispatch.ScaleUpRequests — when an attempt that finds no agent asks for pods.

  A task of a pool that runs on pods is given a slot before the agents are looked for. So only an attempt
  that had a slot gets as far as to find that no agent is connected, and only that one asks for pods; a
  pool without a free slot, and a pool without pods at all, is not asked for any.
  - `HasPlace`: what it takes for a task to get a slot.
  - `run_pushToAgent_place`, `run_pushToAgent_noPlace`: the start with and without a slot.
  - `scale_up_follows_a_free_slot`: whole attempts, in every state of the pool.
-/

import TaskFleet.Proofs.Capacity.Allocation
import TaskFleet.Proofs.Dispatch.SoloAttempts

namespace TaskFleet.Dispatch

open Fallible Program

variable {cfg : Settings} {process : Nat} {workspace pool : String} {t : Task} {ws : Workspace} {w : World}

/-! ## A slot for a task -/

/-- A task gets a slot of a pool: the one that it has if its apply is due, or else a free one. -/
def HasPlace (settings : CapacitySettings) (pool : String) (t : Task) (c : Capacity) (now : UInt64) : Prop :=
  (t.status = .applyPending ∧ ∃ place, c.placementOf? t.id = some place) ∨
    ∃ name p, c.pods.get? name = some p ∧ p.pool = pool ∧ p.Admits settings.heartbeatTimeoutSecs t.kind now

theorem held_eq_none (h : ¬(t.status = .applyPending ∧ ∃ place, w.capacity.placementOf? t.id = some place)) :
    (if t.status = .applyPending then w.capacity.placementOf? t.id else none) = none := by
  split
  · next hst => exact Option.eq_none_iff_forall_ne_some.2 fun place hplace => h ⟨hst, place, hplace⟩
  · rfl

theorem run_findSlot_place (h : HasPlace cfg.capacity pool t w.capacity w.now) :
    ∃ place capacity, (findSlot cfg t pool).run w = (.finished (some place), { w with capacity }) := by
  by_cases hheld : t.status = .applyPending ∧ ∃ place, w.capacity.placementOf? t.id = some place
  · obtain ⟨hst, place, hplace⟩ := hheld
    exact ⟨place, w.capacity, run_findSlot hst hplace⟩
  · obtain ⟨name, p, hp, hpool, hadmits⟩ := h.resolve_left hheld
    obtain ⟨place, capacity, hallocate⟩ : ∃ place capacity,
        w.capacity.allocate cfg.capacity pool t.id t.kind w.now = .ok (place, capacity) := by
      unfold Capacity.allocate
      cases hfound : w.capacity.freeSlotIn? cfg.capacity pool t.kind w.now with
      | none => exact absurd hadmits (Capacity.freeSlotIn?_eq_none_iff.1 hfound name p hp hpool)
      | some found => exact ⟨_, _, rfl⟩
    refine ⟨place, capacity, ?_⟩
    unfold findSlot
    rw [run_get_bind, held_eq_none hheld]
    exact run_bind_finished _ (run_onCapacity hallocate)

theorem run_findSlot_noPlace (h : ¬HasPlace cfg.capacity pool t w.capacity w.now) :
    (findSlot cfg t pool).run w = (.finished none, w) := by
  have hfound : w.capacity.freeSlotIn? cfg.capacity pool t.kind w.now = none :=
    Capacity.freeSlotIn?_eq_none_iff.2 fun name p hp hpool hadmits => h (.inr ⟨name, p, hp, hpool, hadmits⟩)
  unfold findSlot
  rw [run_get_bind, held_eq_none fun hheld => h (.inl hheld)]
  simp only [onCapacity, run_apply_bind, Capacity.allocate, hfound]
  rfl

/-- A slot is given up, or else the pool does not have it; it makes no difference to the attempt. -/
theorem run_release_any (place : Option Placement) (w : World) :
    ∃ capacity, (release place).run w = (.finished (), { w with capacity }) := by
  cases place with
  | none => exact ⟨w.capacity, rfl⟩
  | some p =>
    cases hrelease : w.capacity.release p.pod p.slot w.now with
    | ok capacity => exact ⟨capacity, run_bind_finished _ (run_editCapacity hrelease)⟩
    | error e =>
      refine ⟨w.capacity, ?_⟩
      unfold release
      simp [editCapacity, onCapacity, hrelease, Except.map]

/-! ## Starting a task while no agent is connected -/

/-- With a slot, the task gives it up, pods are asked for, and it is to be tried again after a fixed time. -/
theorem run_pushToAgent_place (hmode : ws.mode = .kubernetes) (hpool : ws.pool = some pool) (hrequests : cfg.requestsPods = true)
    (hanswers : w.agentsFault = none) (hnobody : w.registry.agents = [])
    (hplace : HasPlace cfg.capacity pool t w.capacity w.now) :
    ∃ w', (pushToAgent cfg process t ws).run w = (retried t.id cfg.dispatch.noAgentsDelay .noConnectedAgents w, w') ∧
      w'.spawned = w.spawned ++ [.ensurePods pool] ∧ w'.clock = w.clock := by
  obtain ⟨place, capacity, hfind⟩ := run_findSlot_place hplace
  obtain ⟨capacity', hrelease⟩ := run_release_any (some place) { w with capacity }
  obtain ⟨w', hretry, hqueue⟩ := run_retryAfter t cfg.dispatch.noAgentsDelay .noConnectedAgents
    ({ w with capacity := capacity' }.spawn (.ensurePods pool))
  have hconnected := Agent.run_connected (w := { w with capacity }) hanswers
  rw [show ({ w with capacity } : World).registry.agents = [] from hnobody] at hconnected
  have hasked : w'.spawned = w.spawned ++ [.ensurePods pool] ∧ w'.clock = w.clock := by
    obtain ⟨queue, queueNotified, rfl⟩ := hqueue
    exact ⟨rfl, rfl⟩
  refine ⟨w', ?_, hasked⟩
  unfold pushToAgent pushToAgentBy
  simp only [hpool, hmode, if_true]
  rw [run_bind_finished _ hfind]
  simp only
  unfold pushToPoolBy
  rw [run_bind_finished _ hconnected]
  simp only [List.isEmpty_nil, if_true]
  rw [run_bind_finished _ hrelease]
  simp only [hrequests, Bool.and_self, if_true]
  exact (run_modify_bind _ _ _).trans hretry

/-- Without a slot, the attempt does not even look for agents. -/
theorem run_pushToAgent_noPlace (hmode : ws.mode = .kubernetes) (hpool : ws.pool = some pool)
    (hplace : ¬HasPlace cfg.capacity pool t w.capacity w.now) :
    ∃ w', (pushToAgent cfg process t ws).run w = (retried t.id (cfg.dispatch.backoff.delay t.retryCount) .noFreeSlot w, w') ∧
      (w'.spawned = w.spawned ∧ w'.capacity = w.capacity) ∧ w'.clock = w.clock := by
  obtain ⟨store, w', hretry, hqueue⟩ := run_retryWithBackoff cfg t .noFreeSlot w
  have hkept : (w'.spawned = w.spawned ∧ w'.capacity = w.capacity) ∧ w'.clock = w.clock := by
    obtain ⟨queue, queueNotified, rfl⟩ := hqueue
    exact ⟨⟨rfl, rfl⟩, rfl⟩
  refine ⟨w', ?_, hkept⟩
  unfold pushToAgent pushToAgentBy
  simp only [hpool, hmode, if_true]
  rw [run_bind_finished _ (run_findSlot_noPlace hplace)]
  exact hretry

/-- On the cluster the start of a task is the search for a slot and an agent. -/
theorem run_dispatchTask_onPods {e : Ending DispatchOutcome} {w' : World}
    (hconfirmed : t.status = .applyPending → t.isApplyConfirmed = true)
    (hrow : w.store.workspace? t.workspace = .ok (some ws)) (hmode : ws.mode = .kubernetes)
    (h : (pushToAgent cfg process t ws).run w = (e, w')) :
    (dispatchTask cfg process t).run.run w = (asAttempt e, w') := by
  unfold dispatchTask dispatchTaskBy
  rw [if_neg (by rintro ⟨hst, hnot⟩; simp [hconfirmed hst] at hnot)]
  refine (run_look_bind _ hrow).trans ?_
  simp only [hmode]
  rw [if_neg (by decide)]
  exact run_always_eq h

/-! ## Whole attempts -/

/-- Nobody is connected, and an attempt on a workspace of the pool is to start a task. -/
structure Deserted (cfg : Settings) (process : Nat) (workspace pool : String) (t : Task) (w : World) : Prop where
  row : ∃ ws, w.store.workspace? workspace = .ok (some ws) ∧ ws.isLocked = false ∧ ws.mode = .kubernetes ∧ ws.pool = some pool
  lock : NeedsLock t → (w.locks.request workspace process).holds workspace process = true
  picks : Picks w.store workspace t
  own : t.workspace = workspace
  confirmed : t.status = .applyPending → t.isApplyConfirmed = true
  requests : cfg.requestsPods = true
  answers : w.agentsFault = none
  nobody : w.registry.agents = []

/-- An attempt that finds no agent asks for pods, once, if its task has a slot or gets one. If not, it is put
    off without that anybody is asked for anything. -/
theorem scale_up_follows_a_free_slot (h : Deserted cfg process workspace pool t w) :
    (HasPlace cfg.capacity pool t w.capacity w.now →
      ∃ w', (tryDispatch cfg process workspace).run.run w =
          (putOff cfg workspace t.id cfg.dispatch.noAgentsDelay .noConnectedAgents w, w') ∧
        w'.spawned = w.spawned ++ [.ensurePods pool]) ∧
    (¬HasPlace cfg.capacity pool t w.capacity w.now →
      ∃ w', (tryDispatch cfg process workspace).run.run w =
          (putOff cfg workspace t.id (cfg.dispatch.backoff.delay t.retryCount) .noFreeSlot w, w') ∧
        w'.spawned = w.spawned ∧ w'.capacity = w.capacity) := by
  obtain ⟨ws, hrow, hunlocked, hmode, hpool⟩ := h.row
  have hhold : (w.store.workspace? workspace).map (fun ws => ws.any (·.isLocked)) = .ok false := by
    rw [hrow]
    exact congrArg Except.ok hunlocked
  have hown : w.store.workspace? t.workspace = .ok (some ws) := h.own ▸ hrow
  constructor
  · intro hplace
    obtain ⟨v', w', hrun, ⟨hspawned, hclock⟩, locks', queue, queueNotified, rfl⟩ := run_tryDispatch_of_picks
      (K := fun v' => v'.spawned = w.spawned ++ [.ensurePods pool] ∧ v'.clock = w.clock) h.picks hhold h.lock
      asAttempt_retried_ne_stuck fun v hv => by
        obtain ⟨locks, rfl⟩ := hv
        obtain ⟨v', hpush, hasked⟩ := run_pushToAgent_place (w := { w with locks }) hmode hpool h.requests
          h.answers h.nobody hplace
        exact ⟨v', run_dispatchTask_onPods h.confirmed hown hmode hpush, hasked⟩
    exact ⟨_, hrun.trans (Prod.ext (caught_retried hclock) rfl), hspawned⟩
  · intro hnone
    obtain ⟨v', w', hrun, ⟨⟨hspawned, hcapacity⟩, hclock⟩, locks', queue, queueNotified, rfl⟩ := run_tryDispatch_of_picks
      (K := fun v' => (v'.spawned = w.spawned ∧ v'.capacity = w.capacity) ∧ v'.clock = w.clock) h.picks hhold h.lock
      asAttempt_retried_ne_stuck fun v hv => by
        obtain ⟨locks, rfl⟩ := hv
        obtain ⟨v', hpush, hkept⟩ := run_pushToAgent_noPlace (w := { w with locks }) hmode hpool hnone
        exact ⟨v', run_dispatchTask_onPods h.confirmed hown hmode hpush, hkept⟩
    exact ⟨_, hrun.trans (Prod.ext (caught_retried hclock) rfl), hspawned, hcapacity⟩

/-! ## A pool with a free slot, and a pool without pods -/

/-- A pending plan of a pool with a free slot, whose agent is not connected. -/
def agentGone : World := { oneFreeSlot with registry := {} }

/-- A pending plan of a pool that has no pods yet. -/
def noPodsYet : World := { agentGone with capacity := {} }

theorem deserted_of_agentGone {w : World} (hstore : w.store = agentGone.store) (hlocks : w.locks = {}) (hregistry : w.registry = {})
    (hfault : w.agentsFault = none) :
    Deserted { holder := "a" } 0 "ws" "pool" { Task.submitted "ws" .plan 0 .manual with id := 1 } w where
  row := hstore ▸ ⟨_, rfl, rfl, rfl, rfl⟩
  lock _ := by rw [hlocks]; rfl
  picks := hstore ▸ .next rfl rfl
  own := rfl
  confirmed := nofun
  requests := rfl
  answers := hfault
  nobody := by rw [hregistry]; rfl

theorem scale_up_follows_a_free_slot_one_pod :
    Deserted { holder := "a" } 0 "ws" "pool" { Task.submitted "ws" .plan 0 .manual with id := 1 } agentGone ∧
    ∃ w', (tryDispatch { holder := "a" } 0 "ws").run.run agentGone =
        (.finished (.ok (.retry 1 (.ofSecs 15) .noConnectedAgents)), w') ∧ w'.spawned = [.ensurePods "pool"] := by
  have hdeserted := deserted_of_agentGone (w := agentGone) rfl rfl rfl rfl
  have hadmits : oneFreePod.Admits 120 .plan 0 := ⟨by decide, ⟨_, List.mem_singleton.2 rfl, rfl⟩, nofun⟩
  exact ⟨hdeserted, (scale_up_follows_a_free_slot hdeserted).1 (.inr ⟨"pod", oneFreePod, rfl, rfl, hadmits⟩)⟩

/-- The pool that needs pods most is not asked for any. -/
theorem empty_pool_is_not_asked_for :
    Deserted { holder := "a" } 0 "ws" "pool" { Task.submitted "ws" .plan 0 .manual with id := 1 } noPodsYet ∧
    ∃ w', (tryDispatch { holder := "a" } 0 "ws").run.run noPodsYet =
        (.finished (.ok (.retry 1 (.ofSecs 5) .noFreeSlot)), w') ∧ w'.spawned = [] :=
  ⟨deserted_of_agentGone rfl rfl rfl rfl, _, rfl, rfl⟩

end TaskFleet.Dispatch
