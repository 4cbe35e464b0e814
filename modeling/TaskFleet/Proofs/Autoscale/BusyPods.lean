/-
  TaskFleet.Proofs.Autoscale.BusyPods — scaling gives up no pod on which something is.

  A scaling call reconciles its pool, and then creates pods and deletes idle ones. What it does
  after the reconciliation is upkeep, wherever the calls to the cluster fail, and whatever
  others do beside the store and the pods.
  - `scales_careful`: all parts but the reconciliation are careful, and so is what they make up.
  - `careful_cyclePools`: in a cycle, the parts of later pools are careful with earlier ones.
-/

import TaskFleet.Proofs.Autoscale.Composition
import TaskFleet.Proofs.Capacity.Upkeep

namespace TaskFleet.Autoscale

open Capacity Program

variable {cfg : Settings} {pool : AgentPool} {K : String → Prop} {α : Type}

theorem calm_queue (workspace : String) : (Program.modify fun w : World => w.trigger workspace).Calm SamePods :=
  calm_modify fun _ => rfl

theorem calm_trigger (workspaces : List String) : (trigger workspaces).Calm SamePods := .forEach calm_queue workspaces

theorem calm_onTracker (pool : String) (f : RestartTracker → α × RestartTracker) : (onTracker pool f).Calm SamePods :=
  calm_apply fun _ => rfl

theorem scales_careful : Scales cfg fun _ p => Careful K p where
  toComposes := composes_careful K
  read f := careful_of_calm (calm_read f)
  queue ws := careful_of_calm (calm_queue ws)
  track pool f := careful_of_calm (calm_onTracker pool f)
  create _ := careful_createPod cfg.capacity
  delete pod := careful_deletePod cfg.capacity pod

theorem careful_cyclePool : Careful (· ≠ pool.id) (cyclePool cfg pool) :=
  scales_careful.cyclePool (careful_reconcile cfg.capacity)

theorem careful_cyclePools (pools : List AgentPool) :
    Careful (fun id => ∀ p ∈ pools, id ≠ p.id) (cyclePools cfg pools) := by
  induction pools with
  | nil => exact careful_pure _
  | cons pool rest ih =>
    refine (careful_cyclePool.mono fun id h => h pool List.mem_cons_self).bind fun result => ?_
    exact (ih.mono fun id h p hp => h p (List.mem_cons_of_mem _ hp)).bind fun _ => careful_pure _

end TaskFleet.Autoscale
