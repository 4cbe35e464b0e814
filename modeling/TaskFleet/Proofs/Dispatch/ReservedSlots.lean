/-
  TaskFleet.Proofs.Dispatch.ReservedSlots — slots that are kept for an apply, through everything
  that an orchestrator does meanwhile.

  A reserved slot is one of many that the upkeep of pods visits. That it is left alone rests on
  three things: its pod is never idle, its pod is in every list of its pool, and its task is
  found waiting for its apply.
  - `Guarded.chore`: completions, sweeps, reconciliation and scaling.
  - `Guarded.choice`: attempts that start another task or none.
  - `Meanwhile`: all that may happen while the apply waits; `Guarded.run` is any run of it.
-/

import TaskFleet.Proofs.Capacity.Reservations
import TaskFleet.Proofs.Dispatch.Operations
import TaskFleet.Proofs.Dispatch.OwnRow
import TaskFleet.Proofs.Dispatch.Writes

namespace TaskFleet

namespace Reservation

open Capacity Program Fallible Store Dispatch

variable {v : Reservation} {cfg : Settings} {settings : CapacitySettings} {process n : Nat} {c c' : Capacity} {w w' : World}
  {workspace : String} {t : Task}

/-! ## Chores -/

theorem scales_honors : Autoscale.Scales cfg fun _ p => v.Honors cfg.capacity p fun _ => True where
  toComposes := composes_honors v cfg.capacity
  read f := honors_of_steps (steps_read_tame f)
  queue _ := honors_of_steps (Program.steps_modify fun _ => tame_aside rfl rfl ⟨rfl, rfl⟩)
  track _ _ := honors_of_steps (Program.steps_apply fun _ => tame_aside rfl rfl ⟨rfl, rfl⟩)
  create := honors_createPod
  delete := honors_deletePod

theorem nameSeq_setSlot {y : Spot} {f : Slot → Slot} (h : c.setSlot y.pod y.slot f = .ok c') : c'.nameSeq = c.nameSeq := by
  rw [setSlot_ok h]
  rfl

/-- The task is found waiting for its apply. -/
theorem honors_find (task : UInt64) :
    v.Honors settings (Except.mapError DispatchError.store <$> Program.readStore (·.task? task))
      fun r => ∀ found, r = .ok found → ∀ t, found = some t → task = v.task → t.status = .applyPending := by
  refine honors_step fun w hg _ => ⟨hg, ⟨0, by omega, by simp⟩, ?_⟩
  rintro found hfound t rfl rfl
  obtain ⟨u, hu, hst⟩ := hg.due
  simp only [hu, mapError_ok, Except.ok.injEq, Option.some.injEq] at hfound
  exact hfound ▸ hst

/-- A completion reserves the slot again, or is one of another task. -/
theorem honors_onTaskCompleted (task : UInt64) : v.Honors settings (onTaskCompleted task).run fun _ => True := by
  refine Honors.bind_run (p := ofResult _) (honors_find task) fun found hfound => ?_
  cases found with
  | none => exact honors_pure trivial
  | some t =>
    simp only
    have hC := composes_honors v settings
    split
    · refine hC.always (hC.ignoring (honors_editSlotOf fun w p c hg hp hr => ?_))
      exact ⟨hg.stands.reserve hp hr hg.watched.begun, nameSeq_setSlot (y := p.spot) hr⟩
    · next hst =>
      split
      · have hne : task ≠ v.task := fun he => hst (hfound t rfl he)
        refine hC.bind_run (hC.always (hC.ignoring (honors_editSlotOf fun w p c hg hp hr => ?_))) fun _ => honors_of_steps ?_
        · exact ⟨hg.stands.release hne hp hr, nameSeq_setSlot (y := p.spot) hr⟩
        · refine steps_bind (steps_always (Program.steps_modify fun w => ?_)) fun _ => ?_
          · rw [World.spawn_hooks]
            exact tame_aside rfl rfl ⟨rfl, rfl⟩
          · exact steps_always (Program.steps_modify fun _ => tame_aside rfl rfl ⟨rfl, rfl⟩)
      · exact honors_pure trivial

/-- Attempts and sweeps do not touch the cluster. -/
theorem lasts_starts {α : Type} {p : Program World α} {r : Except String α} (hp : p.Steps Starts)
    (he : Ends (v.Watching settings) n p w r w') : v.Lasts settings w w' := by
  have hsteps : p.Steps (v.Lasts settings) := hp.mono fun _ _ h hw => hw.elsewhere h.surroundings
  exact hsteps.ends he fun _ _ h => h.2

/-- A sweep gives back only tasks that run. -/
theorem Guarded.sweep (hg : v.Guarded settings w) {now : UInt64} {r : Except String Unit}
    (he : Ends (v.Watching settings) n (ignoring (Recovery.sweep now)) w r w') : v.Guarded settings w' := by
  obtain ⟨hpods, ts, hdistinct, hts, hstore⟩ := ends_sweep hg.keyed (he.mono fun _ _ h => h.1)
  refine ⟨hpods ▸ hg.stands, lasts_starts (starts_tidy (steps_ignoring (tidy_sweep now))) he hg.watched, hstore ▸ hg.keyed.giveBackAll ts, ?_⟩
  obtain ⟨t, ht, hst⟩ := hg.due
  obtain ⟨hheld, hid⟩ := hg.keyed.task?_iff.1 ht
  have hkeyed : w'.store.Keyed := hstore ▸ hg.keyed.giveBackAll ts
  refine ⟨t, hkeyed.task?_iff.2 ⟨?_, hid⟩, hst⟩
  rw [hstore, holds_giveBackAll hdistinct]
  refine .inr ⟨hheld, fun u hu hne => ?_⟩
  obtain ⟨hu, hexp⟩ := hts u hu
  obtain ⟨hrun, -⟩ := Task.hasExpiredLease_iff.1 hexp
  rw [← holds_inj hheld hu hne, hst] at hrun
  cases hrun

/-- Chores leave a guarded reservation guarded, if they do not give the pod's name to another. -/
theorem Guarded.chore (hg : v.Guarded cfg.capacity w) {p : Program World Unit} (hp : Chore cfg p)
    (hn : NotNext v.spot.pod v.since n w.capacity) {r : Except String Unit} (he : Ends (v.Watching cfg.capacity) n p w r w') :
    v.Guarded cfg.capacity w' := by
  have hscales : Autoscale.Scales cfg fun _ p => v.Honors cfg.capacity p fun _ => True := scales_honors
  have hreconcile : ∀ pool, v.Honors cfg.capacity (Capacity.reconcile cfg.capacity pool).run fun _ => True := honors_reconcile
  have hkeeps : ∀ {q : Program World Unit}, v.Honors cfg.capacity q (fun _ => True) →
      Ends (v.Watching cfg.capacity) n q w r w' → v.Guarded cfg.capacity w' := fun hq he => (hq n w r w' hg hn he).1
  cases hp with
  | completed task => exact hkeeps (hscales.ignoring (honors_onTaskCompleted task)) he
  | sweep now => exact hg.sweep he
  | reconcile pool => exact hkeeps (hscales.ignoring (hreconcile pool)) he
  | createPod pool => exact hkeeps (hscales.ignoring (honors_createPod pool)) he
  | deletePod pod => exact hkeeps (hscales.ignoring (honors_deletePod pod)) he
  | scalePool pool => exact hkeeps (hscales.ignoring (hscales.scalePool (hreconcile pool))) he
  | ensurePods pool => exact hkeeps (hscales.ignoring (hscales.ensurePods hreconcile pool)) he
  | restartUnhealthy pool => exact hkeeps (hscales.ignoring hscales.restartUnhealthy) he
  | cycle => exact hkeeps (hscales.ignoring (hscales.cycle hreconcile)) he

/-! ## Attempts -/

theorem bystanders_watching : Bystanders (v.Watching settings) where
  pods _ _ h := h.1.2
  locks _ _ := ⟨⟨rfl, rfl⟩, fun h => h.elsewhere ⟨rfl, rfl⟩⟩

/-- An attempt on another task leaves the slot alone. -/
theorem Stands.apart (h : v.Stands c) {task : UInt64} (hne : task ≠ v.task) {place : Option Placement}
    (ha : Apart task c place c') : v.Stands c' := by
  obtain ⟨s, hs, hkeeps⟩ := h.slot
  have hbusy : s.isIdle = false := by simp [Slot.isIdle, hkeeps.status]
  have hother : s.task ≠ some task := by
    rw [hkeeps.task]
    exact fun he => hne (Option.some.inj he).symm
  refine ⟨ha.order, fun y hy => h.only y (ha.holding.others y v.task (Ne.symm hne) hy), ⟨s, ?_, hkeeps⟩, ?_⟩
  · exact ha.holding.spared.others v.spot s hs hbusy hother
  · exact (ha.pods v.spot.pod).trans h.pod

/-- A row of another task may change. -/
theorem Due.oneRow {store store' : Store} (h : v.Due store) (hs : store.Keyed) {P : Task → Prop} (hne : t.id ≠ v.task)
    (hrow : OneRow t P store store') : v.Due store' := by
  obtain ⟨u, hu, hst⟩ := h
  obtain ⟨hheld, hid⟩ := hs.task?_iff.1 hu
  exact ⟨u, hrow.keyed.task?_iff.2 ⟨(hrow.others u (hid ▸ Ne.symm hne)).2 hheld, hid⟩, hst⟩

/-- An attempt on another task, even one that crashes. -/
theorem Guarded.dispatchTask (hg : v.Guarded settings w) (ht : w.store.Holds t) (hne : t.id ≠ v.task)
    {r : Except String (Except DispatchError DispatchOutcome)}
    (he : Ends (v.Watching settings) n (dispatchTask cfg process t).run w r w') : v.Guarded settings w' := by
  have horder := hg.stands.order
  have hrows : ∀ w w', v.Watching settings w w' → SameRows w w' := fun _ _ h => congrArg Store.tasks h.1.1
  rcases left_dispatchTask bystanders_watching (handles_apart w.capacity) horder.named (enters_apart horder) he with
    ⟨e, -, hw⟩ | ⟨r', ws, w₁, rfl, -, -, hleft⟩
  · exact hg.after hw
  rcases rows_dispatchTask hrows hg.keyed ht he with ⟨e, hr, -⟩ | ⟨r'', -, hrow⟩
  · cases r' <;> cases hr
  have hstands : v.Stands w'.capacity := by
    obtain ⟨place, hapart | ⟨-, hsame⟩⟩ := hleft.hand
    · exact hg.stands.apart hne hapart
    · rw [hsame]; exact hg.stands
  exact ⟨hstands, lasts_starts (starts_dispatchTask process t) he hg.watched, hrow.any.keyed, hg.due.oneRow hg.keyed hne hrow.any⟩

/-- Whether the answer of an attempt may be about the task; that of a crash may be about any. -/
def Concerns (task : UInt64) : Except DispatchError DispatchOutcome → Prop
  | .error (.crashed _ _) => True
  | .ok (.skipped id) => id = task
  | .ok (.retry id _ _) => id = task
  | .ok (.started id _) => id = task
  | _ => False

/-- Attempts whose answer is not about the task, with whatever settings they are made. -/
theorem Guarded.choice (hg : v.Guarded settings w) {result : Except DispatchError DispatchOutcome}
    (hc : Choice (v.Watching settings) cfg process workspace w w' (.ok result)) (hno : ¬Concerns v.task result) :
    v.Guarded settings w' := by
  cases hc with
  | nothing _ hw => exact hg.after hw
  | crashed => exact absurd trivial hno
  | @task _ t w₁ w₂ _ hc he hw =>
    obtain ⟨ht, -⟩ := hc.holds (fun _ _ h => h.1.1) hg.keyed
    have hg₁ := hg.after hc.between
    rw [← hc.between.1.1] at ht
    by_cases hid : t.id = v.task
    · -- the task itself may only have been refused
      have horder := hg₁.stands.order
      rcases left_dispatchTask bystanders_watching (handles_apart w₁.capacity) horder.named (enters_apart horder) he with
        ⟨e, -, hw₂⟩ | ⟨r', ws, w₃, hr, -, -, hleft⟩
      · exact (hg₁.after hw₂).after hw
      · cases r' with
        | error m => cases hr
        | ok o =>
          cases hr
          cases o with
          | idle => exact hleft.elim
          | skipped id => exact absurd (hleft.1.trans hid) hno
          | retry id delay reason => exact absurd (hleft.1.trans hid) hno
          | started id agent => exact absurd (hleft.1.trans hid) hno
    · exact (hg₁.dispatchTask ht hid he).after hw

/-! ## Everything that may happen meanwhile -/

/-- Events that leave the task waiting, its pod listed and the agent on the pod. -/
theorem Guarded.event (hg : v.Guarded settings w) (he : WorldEvent w w')
    (hpod : w'.capacity.affiliation v.spot.pod = w.capacity.affiliation v.spot.pod) (hdue : v.Due w'.store)
    (hwatched : v.Watched settings w') : v.Guarded settings w' := by
  refine ⟨?_, hwatched, he.keyed hg.keyed, hdue⟩
  rcases he.pods with hsame | ⟨pod, f, hf, heq⟩
  · rw [hsame]; exact hg.stands
  · rw [heq] at hpod ⊢
    exact hg.stands.modifyPod pod hf hpod

/-- One completed operation or one event, while the apply waits: no attempt is made on the
    task, the pod's name is not given to another pod, and others leave the pod in the cluster
    and let the reservation last. -/
inductive Meanwhile (cfg : Settings) (v : Reservation) (w w' : World) : Prop
  | attempt {n : Nat} {workspace : String} {p : Fallible DispatchError DispatchOutcome}
      {result : Except DispatchError DispatchOutcome} : Attempt workspace p →
      Ends (v.Watching cfg.capacity) n p.run w (.ok result) w' → ¬Concerns v.task result → Meanwhile cfg v w w'
  | crash {n process : Nat} {workspace message : String} {settings : Settings} {t : Task} {w₁ w₂ w₃ : World}
      {notBefore : UInt64} :
      Chosen (v.Watching cfg.capacity) workspace w t w₁ → t.id ≠ v.task →
      Ends (v.Watching cfg.capacity) n (dispatchTask settings process t).run w₁ (.error message) w₂ →
      v.Watching cfg.capacity w₂ w₃ → w₃.after? (settings.dispatch.backoff.delay 0) = some notBefore →
      v.Watching cfg.capacity (w₃.scheduleAt workspace notBefore) w' → Meanwhile cfg v w w'
  | lost {n process : Nat} {workspace message : String} {settings : Settings} {t : Task} {w₁ w₂ : World} :
      Chosen (v.Watching cfg.capacity) workspace w t w₁ → t.id ≠ v.task →
      Ends (v.Watching cfg.capacity) n (dispatchTask settings process t).run w₁ (.error message) w₂ →
      v.Watching cfg.capacity w₂ w' → Meanwhile cfg v w w'
  | chore {n : Nat} {p : Program World Unit} {r : Except String Unit} : Chore cfg p → NotNext v.spot.pod v.since n w.capacity →
      Ends (v.Watching cfg.capacity) n p w r w' → Meanwhile cfg v w w'
  | event : WorldEvent w w' → w'.capacity.affiliation v.spot.pod = w.capacity.affiliation v.spot.pod → v.Due w'.store →
      v.Watched cfg.capacity w' → Meanwhile cfg v w w'

theorem Guarded.meanwhile (hg : v.Guarded cfg.capacity w) (h : Meanwhile cfg v w w') : v.Guarded cfg.capacity w' := by
  cases h with
  | attempt hp he hno =>
    obtain ⟨_, _, hchoice⟩ := hp.choice bystanders_watching he
    exact hg.choice hchoice hno
  | @crash _ _ workspace _ settings t w₁ w₂ w₃ notBefore hc hne he hw _ hw' =>
    obtain ⟨ht, -⟩ := hc.holds (fun _ _ h => h.1.1) hg.keyed
    rw [← hc.between.1.1] at ht
    have hg₃ := ((hg.after hc.between).dispatchTask ht hne he).after hw
    have hqueued : v.Tame cfg.capacity w₃ (w₃.scheduleAt workspace notBefore) :=
      tame_aside rfl rfl ⟨rfl, rfl⟩
    exact (hqueued.1 hg₃).after hw'
  | lost hc hne he hw =>
    obtain ⟨ht, -⟩ := hc.holds (fun _ _ h => h.1.1) hg.keyed
    rw [← hc.between.1.1] at ht
    exact ((hg.after hc.between).dispatchTask ht hne he).after hw
  | chore hp hn he => exact hg.chore hp hn he
  | event he hpod hdue hwatched => exact hg.event he hpod hdue hwatched

theorem Guarded.run (hg : v.Guarded cfg.capacity w) (h : Relation.ReflTransGen (Meanwhile cfg v) w w') :
    v.Guarded cfg.capacity w' := by
  induction h with
  | refl => exact hg
  | tail _ hstep ih => exact ih.meanwhile hstep

end Reservation

end TaskFleet
