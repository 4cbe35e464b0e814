/-
  TaskFleet.Proofs.Autoscale.Composition — scaling is put together from the maintenance of pods.

  Whatever holds of looking, of queueing workspaces, of the restart history, of creating and of
  deleting a pod, and is inherited by sequences, holds of every scaling call after its
  reconciliation, and with the reconciliation of the pools concerned of the whole call.
  - `Scales`: what has to hold of the parts.
  - `Scales.scaleReconciled`, `Scales.restartUnhealthy`, …: what follows for each call.
  - `scales_steps`: every step being of a kind, for the kinds of steps of maintenance.
-/

import TaskFleet.Autoscale.Cycle
import TaskFleet.Proofs.Capacity.Maintenance

namespace TaskFleet.Autoscale

open Capacity

/-- A property of the parts of scaling that sequences inherit. -/
structure Scales (cfg : Settings) (C : ∀ α : Type, Program World α → Prop) : Prop extends Composes C where
  read {α : Type} (f : World → α) : C α (Program.get f)
  queue (workspace : String) : C _ (Program.modify (·.trigger workspace))
  track {α : Type} (pool : String) (f : RestartTracker → α × RestartTracker) : C α (onTracker pool f)
  create (pool : AgentPool) : C _ (createPod cfg.capacity pool).run
  delete (pod : String) : C _ (deletePod cfg.capacity pod).run

/-- What making sure that a pool has pods does after the reconciliation. -/
def ensureReconciled (cfg : Settings) (pool : AgentPool) (id : String) : Fallible ScalingError (UInt32 × Bool) := do
  let frozen := (← freezeStatus pool).isFrozen
  let empty := (← Fallible.always (podCount id)) = 0
  let created ← if !frozen ∧ empty then Fallible.always (createPods cfg pool (initialPods pool)) else pure 0
  let (count, scaled) ← scaleReconciled cfg pool
  return (count, scaled || 0 < created)

/-- What a cycle does with a pool after the reconciliation. -/
def cycleReconciled (cfg : Settings) (pool : AgentPool) :
    Except CapacityError Unit → Program World (Option (String × UInt32 × Bool))
  | .error _ => return none
  | .ok () => do
    Fallible.ignoring (restartUnhealthy cfg pool)
    let result ← (scaleReconciled cfg pool).run
    let work ← (look (·.poolWorkload pool.id)).run
    if let .ok work := work then trigger work.pendingWorkspaces
    return result.toOption.map fun (count, scaled) => (pool.id, count, scaled)

theorem cyclePool_eq {cfg : Settings} {pool : AgentPool} :
    cyclePool cfg pool = (reconcile cfg.capacity pool).run >>= cycleReconciled cfg pool := by
  unfold cyclePool
  congr 1

namespace Scales

variable {cfg : Settings} {C : ∀ α : Type, Program World α → Prop} {pool : AgentPool} {α : Type}

/-! ## Parts -/

theorem look (hC : Scales cfg C) (f : Store → Except StoreError α) : C _ (Autoscale.look f).run :=
  hC.map _ (hC.read _)

theorem freezeStatus (hC : Scales cfg C) : C _ (Autoscale.freezeStatus pool).run := by
  refine hC.bind_run (hC.always (hC.read _)) fun now => ?_
  split <;> exact hC.pure _

theorem trigger (hC : Scales cfg C) (workspaces : List String) : C _ (Autoscale.trigger workspaces) :=
  hC.forEach hC.queue workspaces

theorem createPods (hC : Scales cfg C) (k : Nat) : C _ (Autoscale.createPods cfg pool k) := by
  induction k with
  | zero => exact hC.pure _
  | succ k ih =>
    refine hC.bind (hC.create pool) fun r => ?_
    cases r with
    | ok p => exact hC.bind ih fun _ => hC.pure _
    | error e => exact hC.pure _

theorem deletePods (hC : Scales cfg C) (pods : List String) : C _ (Autoscale.deletePods cfg pods) := by
  induction pods with
  | nil => exact hC.pure _
  | cons pod rest ih =>
    refine hC.bind (hC.delete pod) fun r => ?_
    cases r with
    | ok u => exact hC.bind ih fun _ => hC.pure _
    | error e => exact ih

/-! ## Scaling -/

theorem shrinkFrozen (hC : Scales cfg C) (pool : String) : C _ (Autoscale.shrinkFrozen cfg pool) :=
  hC.bind (hC.read _) fun _ => hC.bind (hC.deletePods _) fun _ => hC.bind (hC.read _) fun _ => hC.pure _

theorem grow (hC : Scales cfg C) (current missing : UInt32) (waiting : List String) :
    C _ (Autoscale.grow cfg pool current missing waiting) := by
  refine hC.bind (hC.createPods missing.toNat) fun created => ?_
  split
  · exact hC.bind (hC.trigger _) fun _ => hC.pure _
  · exact hC.pure _

theorem shrink (hC : Scales cfg C) (pool : String) (current surplus : UInt32) :
    C _ (Autoscale.shrink cfg pool current surplus).run := by
  refine hC.bind_run (hC.look _) fun work => ?_
  split
  · exact hC.pure _
  · refine hC.bind_run (hC.always (hC.read _)) fun idle => ?_
    exact hC.bind_run (hC.always (hC.deletePods _)) fun _ => hC.pure _

theorem scaleReconciled (hC : Scales cfg C) : C _ (Autoscale.scaleReconciled cfg pool).run := by
  refine hC.bind_run hC.freezeStatus fun status => ?_
  split
  · exact hC.always (hC.shrinkFrozen pool.id)
  · refine hC.bind_run (hC.always (hC.read _)) fun capacity => ?_
    refine hC.bind_run (hC.look _) fun work => ?_
    simp only
    split
    · exact hC.pure _
    · split
      · exact hC.always (hC.grow _ _ _)
      · exact hC.shrink _ _ _

theorem ensureReconciled (hC : Scales cfg C) (id : String) : C _ (Autoscale.ensureReconciled cfg pool id).run := by
  refine hC.bind_run hC.freezeStatus fun status => ?_
  refine hC.bind_run (hC.always (hC.read _)) fun count => ?_
  simp only
  split
  · exact hC.bind_run (hC.always (hC.createPods _)) fun created =>
      hC.bind_run hC.scaleReconciled fun _ => hC.pure _
  · exact hC.bind_run (hC.pure _) fun created => hC.bind_run hC.scaleReconciled fun _ => hC.pure _

/-! ## Unhealthy pods -/

theorem restart (hC : Scales cfg C) (pod : String) (now : UInt64) : C _ (Autoscale.restart cfg pool pod now) := by
  refine hC.bind (hC.track _ _) fun decision => ?_
  cases decision with
  | backoff remaining => exact hC.pure _
  | giveUp count first => exact hC.pure _
  | restart attempt =>
    refine hC.bind (hC.delete pod) fun r => ?_
    cases r with
    | error e => exact hC.pure _
    | ok u =>
      refine hC.bind (hC.create pool) fun created => ?_
      exact hC.bind (hC.track _ _) fun _ => hC.pure _

theorem restartEach (hC : Scales cfg C) (now : UInt64) (pods : List String) :
    C _ (Autoscale.restartEach cfg pool now pods) := by
  induction pods with
  | nil => exact hC.pure _
  | cons pod rest ih => exact hC.bind (hC.restart pod now) fun new => hC.bind ih fun _ => hC.pure _

theorem restartUnhealthy (hC : Scales cfg C) : C _ (Autoscale.restartUnhealthy cfg pool).run := by
  refine hC.bind_run (hC.look _) fun work => ?_
  split
  · exact hC.pure _
  · refine hC.bind_run (hC.always (hC.read _)) fun r => ?_
    obtain ⟨now, pods⟩ := r
    refine hC.bind_run (hC.always (hC.track _ _)) fun _ => ?_
    simp only
    split
    · exact hC.bind_run (hC.always (hC.track _ _)) fun _ => hC.pure _
    · exact hC.always (hC.restartEach _ _)

/-! ## The control loop -/

theorem cycleReconciled (hC : Scales cfg C) (r : Except CapacityError Unit) : C _ (Autoscale.cycleReconciled cfg pool r) := by
  cases r with
  | error e => exact hC.pure _
  | ok u =>
    refine hC.bind (hC.ignoring hC.restartUnhealthy) fun _ => hC.bind hC.scaleReconciled fun result => ?_
    refine hC.bind (hC.look _) fun work => ?_
    cases work with
    | error e => exact hC.pure _
    | ok work => exact hC.bind (hC.trigger _) fun _ => hC.pure _

theorem cyclePool (hC : Scales cfg C) (hrec : C _ (reconcile cfg.capacity pool).run) : C _ (Autoscale.cyclePool cfg pool) := by
  rw [cyclePool_eq]
  exact hC.bind hrec fun r => hC.cycleReconciled r

/-! ## Whole calls -/

theorem onPods {p : Fallible CapacityError α} (hC : Scales cfg C) (hp : C _ p.run) : C _ (Autoscale.onPods p).run :=
  hC.map _ hp

theorem scalePool (hC : Scales cfg C) (hrec : C _ (reconcile cfg.capacity pool).run) :
    C _ (Autoscale.scalePool cfg pool).run := hC.bind_run (hC.onPods hrec) fun _ => hC.scaleReconciled

theorem ensurePods (hC : Scales cfg C) (hrec : ∀ pool, C _ (reconcile cfg.capacity pool).run) (id : String) :
    C _ (Autoscale.ensurePods cfg id).run := by
  refine hC.bind_run (hC.look _) fun found => ?_
  cases found with
  | none => exact hC.pure _
  | some pool =>
    simp only
    split
    · exact hC.bind_run (hC.always (hC.read _)) fun _ => hC.pure _
    · exact hC.bind_run (hC.onPods (hrec pool)) fun _ => hC.ensureReconciled id

theorem cycle (hC : Scales cfg C) (hrec : ∀ pool, C _ (reconcile cfg.capacity pool).run) :
    C _ (Autoscale.cycle cfg).run := by
  refine hC.bind_run (hC.look _) fun pools => hC.always ?_
  induction pools.filter (·.kind == .kubernetes) with
  | nil => exact hC.pure _
  | cons pool rest ih => exact hC.bind (hC.cyclePool (hrec pool)) fun result => hC.bind ih fun _ => hC.pure _

end Scales

/-! ## Steps -/

theorem scales_steps {cfg : Settings} {R : World → World → Prop} (hR : Maintains cfg.capacity R)
    (hqueue : ∀ w ws, R w (w.trigger ws)) (htrack : ∀ w trackers, R w { w with trackers }) :
    Scales cfg fun _ p => p.Steps R where
  toComposes := .steps R
  read f := Program.steps_get hR.idle f
  queue ws := Program.steps_modify fun w => hqueue w ws
  track _ _ := Program.steps_apply fun w => htrack w _
  create := steps_createPod hR
  delete := steps_deletePod hR

end TaskFleet.Autoscale
