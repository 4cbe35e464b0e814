/-
  TaskFleet.Proofs.Dispatch.AttemptSteps — of what kind the steps of an attempt are.

  Whatever an attempt does to the world it does in one of a few places. A relation that allows
  for each of them allows for every step of the attempt.
  - `Covers`: what an attempt on one task does; `Covers.dispatchTask`: every step of it.
  - `CoversLock`: what an attempt does around that; `CoversLock.tryDispatch`,
    `CoversLock.executeConfirmedApply`: every step of a whole attempt.
-/

import TaskFleet.Proofs.Dispatch.Reads

namespace TaskFleet.Dispatch

open Fallible

variable {S : World → World → Prop} {cfg : Settings} {process : Nat} {workspace : String} {t : Task}

/-- The relation allows for everything that is done to start the task. -/
structure Covers (S : World → World → Prop) (cfg : Settings) (process : Nat) (t : Task) : Prop where
  pods : ∀ w capacity, S w { w with capacity }
  claim : ∀ agent, (claim cfg t agent).Steps S
  settle : (settle cfg t.id).Steps S
  rollBack : (rollBack t).Steps S
  countRetry : (tryUpdate t.id fun t => .ok t.countRetry).Steps S
  schedule : ∀ w notBefore, S w (w.scheduleAt t.workspace notBefore)
  spawn : ∀ w job, S w (w.spawn job)
  send : ∀ agent m, (Agent.sendTask process agent m).run.Steps S

namespace Covers

variable (hS : Covers S cfg process t)

include hS

theorem refl (w : World) : S w w := hS.pods w w.capacity

theorem onlyPods {α : Type} {p : Program World α} (hp : p.Steps OnlyPods) : p.Steps S :=
  hp.mono fun w _ ⟨capacity, h⟩ => h ▸ hS.pods w capacity

theorem retryAfter (delay : Duration) (reason : RetryReason) : (Dispatch.retryAfter t delay reason).Steps S :=
  .bind (Program.steps_schedule hS.refl hS.schedule) fun _ => trivial

theorem retryWithBackoff (reason : RetryReason) : (Dispatch.retryWithBackoff cfg t reason).Steps S :=
  .bind hS.countRetry fun _ => hS.retryAfter _ reason

theorem handOver (target : Target) : (Dispatch.handOver cfg process t target).Steps S := by
  refine .bind (hS.claim _) fun r => ?_
  match r with
  | .error e => exact .bind (hS.onlyPods (onlyPods_release _)) fun _ => hS.retryWithBackoff _
  | .ok none => exact .bind (hS.onlyPods (onlyPods_release _)) fun _ => trivial
  | .ok (some claimed) =>
    refine .bind (hS.send _ _) fun sent => ?_
    cases sent with
    | ok u =>
      have hend : ∀ o : DispatchOutcome, (Dispatch.settle cfg t.id >>= fun _ => pure o).Steps S := fun _ =>
        .bind hS.settle fun _ => trivial
      cases target.place with
      | none => exact hend _
      | some p => exact .bind (hS.onlyPods (onlyPods_onCapacity _)) fun _ => hend _
    | error e =>
      exact .bind (hS.onlyPods (onlyPods_release _)) fun _ => .bind hS.rollBack fun _ => hS.retryWithBackoff _

theorem startLocal : (Dispatch.startLocal cfg t).Steps S := by
  refine .bind (hS.claim none) fun r => ?_
  match r with
  | .error e => exact hS.retryWithBackoff _
  | .ok none => trivial
  | .ok (some claimed) =>
    exact .bind hS.settle fun _ => .bind (Program.steps_modify fun w => hS.spawn w _) fun _ => trivial

theorem pushToPool (pool : String) (onPods : Bool) (place : Option Placement) :
    (Dispatch.pushToPool cfg process t pool onPods place).Steps S := by
  refine .bind (Agent.steps_connected hS.refl) fun connected => ?_
  split
  · refine .bind (hS.onlyPods (onlyPods_release _)) fun _ => ?_
    split
    · exact .bind (Program.steps_modify fun w => hS.spawn w _) fun _ => hS.retryAfter _ _
    · exact hS.retryAfter _ _
  · refine .bind (hS.onlyPods (onlyPods_findTarget _ _ _ _)) fun target => ?_
    cases target with
    | none => exact hS.retryWithBackoff _
    | some target => exact hS.handOver target

theorem pushToAgent (ws : Workspace) : (Dispatch.pushToAgent cfg process t ws).Steps S := by
  unfold Dispatch.pushToAgent Dispatch.pushToAgentBy
  cases ws.pool with
  | none => exact hS.retryAfter _ _
  | some pool =>
    simp only
    split
    · refine .bind (hS.onlyPods (onlyPods_findSlot pool)) fun place => ?_
      cases place with
      | none => exact hS.retryWithBackoff _
      | some place => exact hS.pushToPool pool true _
    · exact hS.pushToPool pool false _

theorem dispatchTask : (Dispatch.dispatchTask cfg process t).run.Steps S := by
  unfold Dispatch.dispatchTask Dispatch.dispatchTaskBy
  split
  · trivial
  · refine steps_bind (.map _ (Program.steps_get hS.refl _)) fun found => ?_
    cases found with
    | none => trivial
    | some ws =>
      simp only
      split
      · exact steps_always hS.startLocal
      · exact steps_always (hS.pushToAgent ws)

end Covers

/-! ## Whole attempts -/

/-- The relation allows for what is done around the start of a task: standing in line for the
    workspace's lock, and queueing the workspace after a crash. -/
structure CoversLock (S : World → World → Prop) (process : Nat) (workspace : String) : Prop where
  refl : ∀ w, S w w
  request : ∀ w, S w { w with locks := w.locks.request workspace process }
  release : ∀ w, S w { w with locks := w.locks.release workspace process }
  schedule : ∀ w notBefore, S w (w.scheduleAt workspace notBefore)

namespace CoversLock

variable (hS : CoversLock S process workspace)

include hS

theorem look {α : Type} (f : Store → Except StoreError α) : (Dispatch.look f).run.Steps S := .map _ (Program.steps_get hS.refl _)

theorem withLock {α : Type} {p : Program World α} (hp : p.Steps S) : (Program.withLock process workspace p).Steps S :=
  .bind (.bind (Program.steps_modify hS.request) fun _ => Program.steps_waitFor _) fun _ =>
    hp.andFinally (Program.steps_modify hS.release)

theorem guarded {p : Fallible DispatchError DispatchOutcome} (hp : p.run.Steps S) :
    (Dispatch.guarded cfg workspace p).run.Steps S := by
  refine .bind hp.attempt fun r => ?_
  cases r with
  | ok result => trivial
  | error m => exact .bind (Program.steps_schedule hS.refl hS.schedule) fun _ => trivial

variable (hstart : ∀ t, (dispatchTask cfg process t).run.Steps S)

include hstart

theorem resumeApply (seen : Task) : (Dispatch.resumeApply cfg process seen).run.Steps S := by
  refine steps_bind (hS.look _) fun found => ?_
  cases found with
  | none => trivial
  | some current =>
    simp only
    split
    · exact hstart current
    · trivial

theorem dispatchExclusive : (Dispatch.dispatchExclusive cfg process workspace).run.Steps S := by
  refine steps_bind (hS.look _) fun found => ?_
  cases found with
  | none => trivial
  | some t => exact hstart t

theorem dispatchNext : (Dispatch.dispatchNext cfg process workspace).run.Steps S := by
  refine steps_bind (hS.look _) fun onHold => ?_
  cases onHold with
  | true => trivial
  | false =>
    refine steps_bind (hS.look _) fun resumable => ?_
    cases resumable with
    | some seen => exact hS.withLock (hS.resumeApply hstart seen)
    | none =>
      refine steps_bind (hS.look _) fun found => ?_
      cases found with
      | none => trivial
      | some t =>
        simp only
        split
        · exact hS.withLock (hS.dispatchExclusive hstart)
        · exact hstart t

theorem tryDispatch : (Dispatch.tryDispatch cfg process workspace).run.Steps S := hS.guarded (hS.dispatchNext hstart)

theorem executeConfirmedApply (task : UInt64) : (Dispatch.executeConfirmedApply cfg process workspace task).run.Steps S := by
  unfold Dispatch.executeConfirmedApply Dispatch.executeConfirmedApplyBy
  rw [confirmedTask_eq, bind_assoc]
  refine steps_bind (hS.look _) fun found => ?_
  cases found with
  | none => trivial
  | some t =>
    simp only
    cases refusal workspace task t with
    | some e => trivial
    | none =>
      simp only [pure_bind]
      refine steps_bind (hS.look _) fun onHold => ?_
      cases onHold with
      | true => trivial
      | false => exact hS.withLock (hS.guarded (hstart t))

end CoversLock

end TaskFleet.Dispatch
