/-
  TaskFleet.Proofs.Dispatch.Reads — what attempts do that no task notices.

  - `Agent.steps_connected`, `Agent.steps_candidates`: listing the agents changes nothing.
  - `Aside`: a step beside the rows, the agents and the jobs. The search for a slot and for an
    agent, the queue and the locks consist of such steps; the search changes nothing but the pods
    (`OnlyPods`).
  - `Recovery.steps_sweep`: of what kind the steps of a sweep are, given that of the steps which
    take a task back.
  - `confirmedTask_eq`: the checks before a confirmed apply are one look at the store and one
    decision, the `refusal`.
  - `run_executeConfirmedApply_refused`: an apply that may not start changes nothing.
-/

import TaskFleet.Proofs.Calls
import TaskFleet.Dispatch.Attempt
import TaskFleet.Recovery

namespace TaskFleet

namespace Agent

open Fallible

variable {S : World → World → Prop}

theorem steps_connected (hS : ∀ w, S w w) : connected.Steps S := by
  refine .bind (Program.steps_get hS _) fun r => ?_
  obtain ⟨fault, agents⟩ := r
  cases fault <;> trivial

theorem steps_candidates (hS : ∀ w, S w w) (pool : String) (kind : TaskKind) : (candidates pool kind).Steps S :=
  .bind (steps_connected hS) fun _ => Program.steps_get hS _

/-- Sending touches mailboxes, and may end a connection. -/
theorem steps_sendTask_of (hS : ∀ w, S w w) (hmail : ∀ w i f, S w { w with registry := w.registry.modifyMailbox i f })
    (hgone : ∀ w agent, S w { w with registry := (w.registry.disconnect agent).2 }) (process : Nat) (agent : String)
    (m : AgentMessage) : (sendTask process agent m).run.Steps S := by
  refine steps_bind (steps_always (Program.steps_get hS _)) fun fault => ?_
  cases fault with
  | some reason => trivial
  | none =>
    refine steps_bind (steps_always (Program.steps_get hS _)) fun connection => ?_
    cases connection with
    | none => trivial
    | some conn =>
      refine steps_bind (steps_always (Program.steps_modify fun w => hmail w _ _)) fun _ => ?_
      refine steps_bind (steps_always (Program.steps_waitFor _)) fun _ => ?_
      refine steps_bind (steps_always (Program.steps_apply fun w => hmail w _ _)) fun delivered => ?_
      cases delivered with
      | true => trivial
      | false => exact steps_bind (steps_always (Program.steps_modify fun w => hgone w _)) fun _ => trivial

/-- Sending touches nothing but the agents. -/
theorem steps_sendTask (hS : ∀ w registry, S w { w with registry }) (process : Nat) (agent : String) (m : AgentMessage) :
    (sendTask process agent m).run.Steps S :=
  steps_sendTask_of (fun w => hS w w.registry) (fun w _ _ => hS w _) (fun w _ => hS w _) process agent m

end Agent

/-- Asking for hooks one after the other. -/
theorem World.spawn_hooks (hooks : List Hook) (task : UInt64) (w : World) :
    hooks.foldl (fun w hook => w.spawn (.fireHook hook task)) w =
      { w with spawned := w.spawned ++ hooks.map (.fireHook · task) } := by
  induction hooks generalizing w with
  | nil => simp
  | cons hook rest ih => rw [List.foldl_cons, ih]; simp [World.spawn]

namespace Recovery

open Fallible

variable {α : Type} {S : Store → Store → Prop} {T : World → World → Prop}

theorem steps_addWaiting (hS : ∀ s, S s s) (workspaces : List String) (ids : List UInt64) :
    (StoreProgram.addWaiting workspaces ids).run.Steps S := by
  induction ids generalizing workspaces with
  | nil => trivial
  | cons id ids ih => exact .bind_run (Program.steps_get hS _) fun _ => ih _

theorem steps_onStore {p : StoreProgram α} (hT : ∀ w s, S w.store s → T w { w with store := s }) (hp : p.run.Steps S) :
    (onStore p).run.Steps T := Program.Steps.focus hp hT

/-- After tasks were taken back, a sweep looks at the store and queues workspaces. -/
theorem steps_sweep (hS : ∀ s, S s s) (hT : ∀ w s, S w.store s → T w { w with store := s })
    (hqueue : ∀ w workspace, T w (w.trigger workspace)) (now : UInt64)
    (hreclaim : ∀ ts, (StoreProgram.reclaimEach ts).run.Steps S) : (sweep now).run.Steps T := by
  refine steps_bind (steps_onStore hT (.bind_run (Program.steps_get hS _) hreclaim)) fun reclaimed => ?_
  refine steps_bind (steps_onStore hT (Program.steps_get hS _)) fun pending => ?_
  refine steps_bind (steps_onStore hT (steps_addWaiting hS _ _)) fun workspaces => ?_
  exact steps_bind (steps_always (.forEach (fun ws => Program.steps_modify fun w => hqueue w ws) _)) fun _ => trivial

end Recovery

namespace Dispatch

open Fallible

variable {cfg : Settings} {w : World} {t : Task}

/-- Why the apply of a task that is there may not start. -/
def refusal (workspace : String) (task : UInt64) (t : Task) : Option DispatchError :=
  if t.workspace ≠ workspace then some (.workspaceMismatch task workspace t.workspace)
  else if t.status ≠ .applyPending then some (.notApplyPending task t.status)
  else if t.isApplyConfirmed then none
  else some (.unconfirmedApply task)

theorem workspace_of_refusal {workspace : String} {task : UInt64} (h : refusal workspace task t = none) :
    t.workspace = workspace := by
  unfold refusal at h
  split at h
  · cases h
  · next hws => exact Classical.not_not.1 hws

theorem status_of_refusal {workspace : String} {task : UInt64} (h : refusal workspace task t = none) :
    t.status = .applyPending := by
  unfold refusal at h
  split at h
  · cases h
  · split at h
    · cases h
    · next hst => exact Classical.not_not.1 hst

/-! ## Steps beside the tasks -/

/-- The rows of the tasks, the agents, the jobs and the surroundings stay as they are. -/
structure Aside (w w' : World) : Prop where
  rows : w'.store.tasks = w.store.tasks
  registry : w'.registry = w.registry
  spawned : w'.spawned = w.spawned
  surroundings : SameSurroundings w w'

variable {α : Type}

theorem aside_refl (w : World) : Aside w w := ⟨rfl, rfl, rfl, rfl, rfl⟩

theorem steps_read (f : World → α) : (Program.get f).Steps Aside := Program.steps_get aside_refl f

theorem steps_look (f : Store → Except StoreError α) : (look f).run.Steps Aside := .map _ (steps_read _)

/-- Nothing changed but the pods and their slots. -/
def OnlyPods (w w' : World) : Prop := ∃ capacity, w' = { w with capacity }

instance : IsPreorder World OnlyPods where
  refl w := ⟨w.capacity, rfl⟩
  trans _ _ _ h h' := by
    obtain ⟨_, rfl⟩ := h
    obtain ⟨capacity, rfl⟩ := h'
    exact ⟨capacity, rfl⟩

theorem OnlyPods.aside {w w' : World} (h : OnlyPods w w') : Aside w w' := by
  obtain ⟨_, rfl⟩ := h
  exact ⟨rfl, rfl, rfl, rfl, rfl⟩

theorem onlyPods_read (f : World → α) : (Program.get f).Steps OnlyPods := Program.steps_get (fun w => refl w) f

theorem onlyPods_onCapacity (f : Capacity → UInt64 → Except CapacityError (α × Capacity)) :
    (Program.onCapacity f).Steps OnlyPods := by
  refine Program.steps_apply fun w => ?_
  cases f w.capacity w.now with
  | ok r => exact ⟨r.2, rfl⟩
  | error e => exact refl w

theorem onlyPods_release (place : Option Placement) : (release place).Steps OnlyPods := by
  unfold release
  cases place with
  | none => trivial
  | some p => exact .bind (onlyPods_onCapacity _) fun _ => trivial

theorem onlyPods_findSlot (pool : String) : (findSlot cfg t pool).Steps OnlyPods := by
  refine .bind (onlyPods_read _) fun held => ?_
  cases held with
  | some p => trivial
  | none => exact .bind (onlyPods_onCapacity _) fun _ => trivial

theorem onlyPods_allocateOnFirst (agents : List String) : (allocateOnFirst t agents).Steps OnlyPods := by
  induction agents with
  | nil => trivial
  | cons agent rest ih =>
    refine .bind (onlyPods_onCapacity _) fun r => ?_
    cases r with
    | ok p => trivial
    | error e => exact ih

theorem onlyPods_findTarget (pool : String) (onPods : Bool) (place : Option Placement) (connected : List String) :
    (findTarget t pool onPods place connected).Steps OnlyPods := by
  unfold findTarget
  split
  · trivial
  · refine .bind (onlyPods_release place) fun _ =>
      .bind (Agent.steps_candidates (fun w => refl w) pool t.kind) fun candidates => ?_
    split
    · exact .bind (onlyPods_allocateOnFirst candidates) fun _ => trivial
    · trivial

theorem steps_onCapacity (f : Capacity → UInt64 → Except CapacityError (α × Capacity)) :
    (Program.onCapacity f).Steps Aside := (onlyPods_onCapacity f).mono fun _ _ h => h.aside

theorem steps_release (place : Option Placement) : (release place).Steps Aside :=
  (onlyPods_release place).mono fun _ _ h => h.aside

theorem steps_findSlot (pool : String) : (findSlot cfg t pool).Steps Aside :=
  (onlyPods_findSlot pool).mono fun _ _ h => h.aside

theorem steps_findTarget (pool : String) (onPods : Bool) (place : Option Placement) (connected : List String) :
    (findTarget t pool onPods place connected).Steps Aside :=
  (onlyPods_findTarget pool onPods place connected).mono fun _ _ h => h.aside

theorem steps_retryAfter (seen : Task) (delay : Duration) (reason : RetryReason) :
    (retryAfter seen delay reason).Steps Aside :=
  .bind (Program.steps_schedule aside_refl fun _ _ => ⟨rfl, rfl, rfl, rfl, rfl⟩) fun _ => trivial

theorem steps_requestLock (process : Nat) (workspace : String) : (Program.requestLock process workspace).Steps Aside :=
  .bind (Program.steps_modify fun _ => ⟨rfl, rfl, rfl, rfl, rfl⟩) fun _ => Program.steps_waitFor _

theorem steps_unlock (process : Nat) (workspace : String) :
    (Program.modify fun w => { w with locks := w.locks.release workspace process }).Steps Aside :=
  Program.steps_modify fun _ => ⟨rfl, rfl, rfl, rfl, rfl⟩

theorem steps_schedule (workspace : String) (delay : Duration) :
    (Program.schedule workspace delay).Steps Aside :=
  Program.steps_schedule aside_refl fun _ _ => ⟨rfl, rfl, rfl, rfl, rfl⟩

/-- A look at the store that succeeds. -/
theorem run_look_bind {β : Type} {f : Store → Except StoreError α} {a : α} (k : α → Fallible DispatchError β)
    (h : f w.store = .ok a) : (Dispatch.look f >>= k).run.run w = (k a).run.run w := by
  show Program.run (ExceptT.bindCont k (Except.mapError DispatchError.store (f w.store))) w = _
  rw [h]
  rfl

/-- What the guard makes of how an attempt ended: after a crash it queues the workspace, or crashes in
    its turn where there is no time for that. -/
def caught (cfg : Settings) (workspace : String) :
    Program.Ending (Except DispatchError DispatchOutcome) × World → Program.Ending (Except DispatchError DispatchOutcome) × World
  | (.crashed message, w) =>
    match w.after? (cfg.dispatch.backoff.delay 0) with
    | some notBefore => (.finished (.error (.crashed workspace message)), w.scheduleAt workspace notBefore)
    | none => (.crashed sumTooLarge, w)
  | ending => ending

theorem caught_crashed (workspace message : String) (w : World) : caught cfg workspace (.crashed message, w) =
    match w.after? (cfg.dispatch.backoff.delay 0) with
    | some notBefore => (.finished (.error (.crashed workspace message)), w.scheduleAt workspace notBefore)
    | none => (.crashed sumTooLarge, w) := rfl

theorem run_guarded_eq (workspace : String) (q : Fallible DispatchError DispatchOutcome) (w : World) :
    (guarded cfg workspace q).run.run w = caught cfg workspace (q.run.run w) := by
  show (q.run.attempt >>= _).run w = _
  have hattempt := Program.run_attempt q.run w
  generalize q.run.run w = x at hattempt
  obtain ⟨e, v⟩ := x
  cases e with
  | finished result => rw [Program.run_bind_finished _ hattempt]; rfl
  | crashed message =>
    rw [Program.run_bind_finished _ hattempt]
    cases hafter : v.after? (cfg.dispatch.backoff.delay 0) with
    | some notBefore =>
      refine (Program.run_bind_finished _ (Program.run_schedule hafter)).trans ?_
      simp only [caught, hafter]
      rfl
    | none =>
      refine (Program.run_bind_crashed _ (Program.run_schedule_none hafter)).trans ?_
      simp only [caught, hafter]
  | stuck => rw [Program.run_bind_stuck _ hattempt]; rfl

/-- An attempt that does not crash is not seen to be guarded. -/
theorem run_guarded {workspace : String} {q : Fallible DispatchError DispatchOutcome}
    {result : Except DispatchError DispatchOutcome} {w' : World} (h : q.run.run w = (.finished result, w')) :
    (guarded cfg workspace q).run.run w = (.finished result, w') := by
  rw [run_guarded_eq, h]
  rfl

theorem run_guarded_stuck {workspace : String} {q : Fallible DispatchError DispatchOutcome} {w' : World}
    (h : q.run.run w = (.stuck, w')) : (guarded cfg workspace q).run.run w = (.stuck, w') := by
  rw [run_guarded_eq, h]
  rfl

/-- A claim that took the task was one transaction, at the time it was made. -/
theorem claimTask_of_run_claim {claimed : Task} {agent : Option String} {w' : World}
    (h : (claim cfg t agent).run w = (.finished (.ok (some claimed)), w')) :
    ∃ store, w.store.claimTask t.id (claimRequest cfg t w.now) (Task.start t.stageOnStart agent w.now) =
      .ok (.claimed claimed, store) ∧ w' = { w with store } := by
  unfold claim Program.claimTask at h
  rw [Program.run_get_bind, bind_assoc] at h
  cases hclaim : w.store.claimTask t.id (claimRequest cfg t w.now) (Task.start t.stageOnStart agent w.now) with
  | error e =>
    rw [Program.run_bind_finished _ (Program.run_transact_error hclaim)] at h
    cases h
  | ok r =>
    obtain ⟨c, store⟩ := r
    rw [Program.run_bind_finished _ (Program.run_transact hclaim)] at h
    cases c with
    | claimed t => cases h; exact ⟨store, rfl, rfl⟩
    | _ => cases h

/-! ## The checks before a confirmed apply -/

theorem confirmedTask_eq (workspace : String) (task : UInt64) :
    confirmedTask workspace task = (Dispatch.look (·.task? task) >>= fun found => match found with
      | none => throw (.taskNotFound task)
      | some t => match refusal workspace task t with
        | some e => throw e
        | none => pure t) := by
  unfold confirmedTask
  congr 1
  funext found
  cases found with
  | none => rfl
  | some t =>
    unfold refusal
    simp only
    split
    · rfl
    · split
      · rfl
      · split <;> rfl

theorem run_executeConfirmedApply_missing {process : Nat} {workspace : String} {task : UInt64}
    (h : w.store.task? task = .ok none) :
    (executeConfirmedApply cfg process workspace task).run.run w = (.finished (.error (.taskNotFound task)), w) := by
  unfold executeConfirmedApply executeConfirmedApplyBy
  rw [confirmedTask_eq]
  unfold Dispatch.look
  simp [Program.readStore, h]

theorem run_executeConfirmedApply_refused {process : Nat} {workspace : String} {task : UInt64} {e : DispatchError}
    (h : w.store.task? task = .ok (some t)) (hr : refusal workspace task t = some e) :
    (executeConfirmedApply cfg process workspace task).run.run w = (.finished (.error e), w) := by
  unfold executeConfirmedApply executeConfirmedApplyBy
  rw [confirmedTask_eq]
  unfold Dispatch.look
  simp [Program.readStore, h, hr]

end Dispatch

end TaskFleet
