/-
  TaskFleet.Proofs.Dispatch.SoloAttempts — an attempt with nobody else at work is the start of one task.

  Which task it is does not depend on how tasks are started. So what is known of one way of starting
  it can be compared with what another way would have come to.
  - `ComesTo`: from this world on, an attempt is the start of this task.
  - `Found`: how an attempt that started a task came to it.
  - `found_tryDispatchBy`, `found_executeConfirmedApplyBy`: both kinds of attempts.
  - `Picks`: the task that an attempt on a workspace is to start.
  - `putOff`: the answer of an attempt whose task is to be tried again.
  - `run_tryDispatch_of_picks`, `run_tryDispatch_waits`: with the workspace's lock at hand the attempt is
    the start of that task; without it, it waits.
-/

import TaskFleet.Proofs.Dispatch.PairedAttempts
import TaskFleet.Proofs.Dispatch.Resume

namespace TaskFleet

/-- Nothing changed but who stands in line for locks. -/
def OnlyLocks (w w' : World) : Prop := ∃ locks, w' = { w with locks }

instance : IsPreorder World OnlyLocks where
  refl w := ⟨w.locks, rfl⟩
  trans _ _ _ h h' := by
    obtain ⟨_, rfl⟩ := h
    obtain ⟨locks, rfl⟩ := h'
    exact ⟨locks, rfl⟩

/-! ## Runs, seen from their ends -/

theorem Program.of_run_andFinally {σ α : Type} {p : Program σ α} {f : σ → σ} {a : α} {s s' : σ}
    (h : (p.andFinally (modify f)).run s = (.finished a, s')) : ∃ s₁, p.run s = (.finished a, s₁) ∧ s' = f s₁ := by
  obtain ⟨r, s₁, hattempt, h⟩ := of_run_bind h
  rw [run_attempt] at hattempt
  generalize hp : p.run s = x at hattempt
  obtain ⟨e, s₂⟩ := x
  cases e with
  | finished b =>
    cases hattempt
    cases h
    exact ⟨_, rfl, rfl⟩
  | crashed m =>
    cases hattempt
    cases h
  | stuck => cases hattempt

theorem Fallible.of_run_always {ε α : Type} {p : Program World α} {a : α} {w w' : World}
    (h : (always p : Fallible ε α).run.run w = (.finished (.ok a), w')) : p.run w = (.finished a, w') := by
  rw [run_always, map_eq_pure_bind] at h
  obtain ⟨b, v, hp, hend⟩ := Program.of_run_bind h
  cases hend
  exact hp

namespace Dispatch

open Fallible Program

variable {cfg : Settings} {process : Nat} {workspace : String} {w w₁ w' v : World} {t : Task} {o : DispatchOutcome}
  {start : Task → Fallible DispatchError DispatchOutcome}

theorem of_run_look_bind {α β : Type} {f : Store → Except StoreError α} {k : α → Fallible DispatchError β} {b : β}
    (h : (look f >>= k).run.run w = (.finished (.ok b), w')) :
    ∃ a, f w.store = .ok a ∧ (k a).run.run w = (.finished (.ok b), w') := by
  replace h : Program.run (ExceptT.bindCont k (Except.mapError DispatchError.store (f w.store))) w = _ := h
  cases hf : f w.store with
  | ok a =>
    rw [hf] at h
    exact ⟨a, rfl, h⟩
  | error e =>
    rw [hf] at h
    cases h

theorem run_isOnHold_bind {α : Type} {onHold : Bool} (k : Bool → Fallible DispatchError α)
    (h : (w.store.workspace? workspace).map (fun ws => ws.any (·.isLocked)) = .ok onHold) :
    (isOnHold workspace >>= k).run.run w = (k onHold).run.run w := run_look_bind k h

theorem run_resumableApply_bind {α : Type} {found : Option Task} (k : Option Task → Fallible DispatchError α)
    (h : (w.store.tasksWhere (·.workspace == workspace)).map
      (fun ts => ts.find? fun u => u.status == .applyPending && u.isApplyConfirmed) = .ok found) :
    (resumableApply workspace >>= k).run.run w = (k found).run.run w := run_look_bind k h

theorem of_run_withLock {α : Type} {q : Program World α} {a : α} (h : (withLock process workspace q).run w = (.finished a, w')) :
    (w.locks.request workspace process).holds workspace process = true ∧
      ∃ w₁, q.run { w with locks := w.locks.request workspace process } = (.finished a, w₁) ∧
        w' = { w₁ with locks := w₁.locks.release workspace process } := by
  obtain ⟨_, v, hlock, h⟩ := of_run_bind h
  have hlock : (waitFor fun w : World => w.locks.holds workspace process).run
      { w with locks := w.locks.request workspace process } = (.finished (), v) := hlock
  unfold waitFor Program.run at hlock
  split at hlock
  · next hholds =>
    cases hlock
    exact ⟨hholds, of_run_andFinally h⟩
  · cases hlock

theorem of_run_guarded {q : Fallible DispatchError DispatchOutcome}
    (h : (guarded cfg workspace q).run.run w = (.finished (.ok o), w')) : q.run.run w = (.finished (.ok o), w') := by
  rw [run_guarded_eq] at h
  generalize q.run.run w = x at h ⊢
  obtain ⟨e, v⟩ := x
  cases e with
  | crashed m =>
    rw [caught_crashed] at h
    cases hafter : v.after? (cfg.dispatch.backoff.delay 0) <;> simp only [hafter] at h <;> cases h
  | _ => exact h

/-! ## What the guard makes of an end -/

theorem caught_ne_stuck {e : Ending (Except DispatchError DispatchOutcome)} (he : e ≠ .stuck) :
    (caught cfg workspace (e, v)).1 ≠ .stuck := by
  cases e with
  | finished result => exact nofun
  | crashed m =>
    rw [caught_crashed]
    cases v.after? (cfg.dispatch.backoff.delay 0) <;> exact nofun
  | stuck => exact absurd rfl he

/-- Who stands in line for locks does not matter to the guard. -/
theorem caught_onlyLocks (h : OnlyLocks w w') (e : Ending (Except DispatchError DispatchOutcome)) :
    (caught cfg workspace (e, w')).1 = (caught cfg workspace (e, w)).1 ∧
      OnlyLocks (caught cfg workspace (e, w)).2 (caught cfg workspace (e, w')).2 := by
  obtain ⟨locks, rfl⟩ := h
  cases e with
  | crashed m =>
    have hafter : ({ w with locks } : World).after? (cfg.dispatch.backoff.delay 0) = w.after? (cfg.dispatch.backoff.delay 0) := rfl
    rw [caught_crashed, caught_crashed, hafter]
    cases w.after? (cfg.dispatch.backoff.delay 0) <;> exact ⟨rfl, locks, rfl⟩
  | _ => exact ⟨rfl, locks, rfl⟩

theorem onlyQueue_caught (e : Ending (Except DispatchError DispatchOutcome)) (w : World) :
    OnlyQueue w (caught cfg workspace (e, w)).2 := by
  cases e with
  | crashed m =>
    rw [caught_crashed]
    cases w.after? (cfg.dispatch.backoff.delay 0) with
    | some notBefore => exact onlyQueue_scheduleAt w workspace notBefore
    | none => exact ⟨w.queue, w.queueNotified, rfl⟩
  | _ => exact ⟨w.queue, w.queueNotified, rfl⟩

/-- The end of the start of a task, as that of the attempt on it. -/
def asAttempt : Ending DispatchOutcome → Ending (Except DispatchError DispatchOutcome)
  | .finished o => .finished (.ok o)
  | .crashed m => .crashed m
  | .stuck => .stuck

theorem asAttempt_retried_ne_stuck {task : UInt64} {delay : Duration} {reason : RetryReason} :
    asAttempt (retried task delay reason w) ≠ .stuck := by
  unfold retried
  split <;> exact nofun

theorem run_always_eq {p : Program World DispatchOutcome} {e : Ending DispatchOutcome} (h : p.run w = (e, w')) :
    (always p : Fallible DispatchError DispatchOutcome).run.run w = (asAttempt e, w') := by
  cases e with
  | finished o => exact run_always_finished h
  | crashed m => exact run_always_crashed h
  | stuck =>
    rw [run_always, map_eq_pure_bind]
    exact run_bind_stuck _ h

/-- How an attempt ends that needs a time beyond 64 bits: it crashes, and the guard queues the
    workspace, or crashes in its turn. -/
def tooLate (cfg : Settings) (workspace : String) (w : World) : Ending (Except DispatchError DispatchOutcome) :=
  if (w.after? (cfg.dispatch.backoff.delay 0)).isSome then .finished (.error (.crashed workspace sumTooLarge))
  else .crashed sumTooLarge

/-- How an attempt ends whose task is put off: it is to be made again after the delay, unless that would
    be too late. -/
def putOff (cfg : Settings) (workspace : String) (task : UInt64) (delay : Duration) (reason : RetryReason) (w : World) :
    Ending (Except DispatchError DispatchOutcome) :=
  if (w.after? delay).isSome then .finished (.ok (.retry task delay reason)) else tooLate cfg workspace w

/-- A crash for want of a time, under the guard, at the same time of day. -/
theorem caught_tooLate (h : v.clock = w.clock) :
    (caught cfg workspace (.crashed sumTooLarge, v)).1 = tooLate cfg workspace w := by
  have hafter : v.after? (cfg.dispatch.backoff.delay 0) = w.after? (cfg.dispatch.backoff.delay 0) := by
    unfold World.after?
    rw [h]
  unfold tooLate
  rw [caught_crashed, hafter]
  cases w.after? (cfg.dispatch.backoff.delay 0) <;> rfl

/-- The start of a task that is to be tried again, under the guard, at the same time of day. -/
theorem caught_retried {task : UInt64} {delay : Duration} {reason : RetryReason} (h : v.clock = w.clock) :
    (caught cfg workspace (asAttempt (retried task delay reason w), v)).1 = putOff cfg workspace task delay reason w := by
  unfold retried putOff
  split
  · rfl
  · exact caught_tooLate h

/-! ## The task that an attempt comes to -/

section

variable {p q : (Task → Fallible DispatchError DispatchOutcome) → Program World (Except DispatchError DispatchOutcome)}
  {result : Except DispatchError DispatchOutcome}

/-- The end of an attempt or of the start of a task, with the world that it leaves. -/
abbrev Answered := Ending (Except DispatchError DispatchOutcome) × World

/-- From this world on, the program is the start of the task in the other one, however tasks are
    started. Of how that ends something else may be made. -/
structure ComesTo (makes : Answered → Answered)
    (p : (Task → Fallible DispatchError DispatchOutcome) → Program World (Except DispatchError DispatchOutcome))
    (w : World) (t : Task) (v : World) : Prop where
  ready : OnlyLocks w v
  ends : ∀ start e v', (start t).run.run v = (e, v') → e ≠ .stuck →
    ∃ w', (p start).run w = ((makes (e, v')).1, w') ∧ OnlyLocks (makes (e, v')).2 w'

/-- The program came to a task of the workspace, and answered as the start of that task did. -/
def Found (makes : Answered → Answered) (workspace : String)
    (p : (Task → Fallible DispatchError DispatchOutcome) → Program World (Except DispatchError DispatchOutcome))
    (start : Task → Fallible DispatchError DispatchOutcome) (w w' : World) (result : Except DispatchError DispatchOutcome) : Prop :=
  ∃ t v v', Picked workspace t w.store ∧ (t.status = .pending ∨ t.status = .applyPending) ∧ ComesTo makes p w t v ∧
    (start t).run.run v = (.finished result, v') ∧ OnlyLocks v' w'

theorem found_start (ht : Picked workspace t w.store) (hst : t.status = .pending ∨ t.status = .applyPending)
    (h : (start t).run.run w = (.finished result, w')) : Found (fun r => r) workspace (fun start => (start t).run) start w w' result :=
  ⟨t, w, w', ht, hst, ⟨refl w, fun _ _ v' hrun _ => ⟨v', hrun, refl v'⟩⟩, h, refl w'⟩

variable {makes : Answered → Answered}

/-- What the program does first depends neither on the task nor on how it is started. -/
theorem Found.after (h : Found makes workspace q start w w' result) (hpq : ∀ start, (p start).run w = (q start).run w) :
    Found makes workspace p start w w' result := by
  obtain ⟨t, v, v', ht, hst, hcomes, hrun, hlast⟩ := h
  refine ⟨t, v, v', ht, hst, ⟨hcomes.ready, fun start e v' hrun he => ?_⟩, hrun, hlast⟩
  rw [hpq]
  exact hcomes.ends start e v' hrun he

theorem Found.withLock (hholds : (w.locks.request workspace process).holds workspace process = true)
    (hmakes : ∀ e v, e ≠ .stuck → (makes (e, v)).1 ≠ .stuck)
    (h : Found makes workspace q start { w with locks := w.locks.request workspace process } w₁ result) :
    Found makes workspace (fun start => Program.withLock process workspace (q start)) start w
      { w₁ with locks := w₁.locks.release workspace process } result := by
  obtain ⟨t, v, v', ht, hst, hcomes, hrun, hlast⟩ := h
  have hready : OnlyLocks w v := trans_of OnlyLocks ⟨_, rfl⟩ hcomes.ready
  refine ⟨t, v, v', ht, hst, ⟨hready, fun start e v' hrun he => ?_⟩, hrun, trans_of OnlyLocks hlast ⟨_, rfl⟩⟩
  obtain ⟨w₂, hq, hw₂⟩ := hcomes.ends start e v' hrun he
  exact ⟨_, run_withLock_of_holds hholds (hmakes e v' he) hq, trans_of OnlyLocks hw₂ ⟨_, rfl⟩⟩

theorem Found.guarded {q : (Task → Fallible DispatchError DispatchOutcome) → Fallible DispatchError DispatchOutcome}
    (h : Found (fun r => r) workspace (fun start => (q start).run) start w w' result) (cfg : Settings) :
    Found (caught cfg workspace) workspace (fun start => (Dispatch.guarded cfg workspace (q start)).run) start w w' result := by
  obtain ⟨t, v, v', ht, hst, hcomes, hrun, hlast⟩ := h
  refine ⟨t, v, v', ht, hst, ⟨hcomes.ready, fun start e v' hrun he => ?_⟩, hrun, hlast⟩
  obtain ⟨w₂, hq, hw₂⟩ := hcomes.ends start e v' hrun he
  obtain ⟨hend, hlocks⟩ := caught_onlyLocks hw₂ e
  exact ⟨_, (run_guarded_eq workspace _ w).trans (by rw [hq]; exact Prod.ext hend rfl), hlocks⟩

end

/-! ## Attempts that start a task -/

variable {id : UInt64} {agent : Option String}

theorem status_of_nextTask {s : Store} (h : s.nextTask workspace = .ok (some t)) : t.status = .pending := by
  obtain ⟨kind, hkind⟩ := Store.oldestPending_of_nextTask h
  have hkeep := Store.keep_of_firstRecord hkind
  simp only [Bool.and_eq_true, beq_iff_eq] at hkeep
  exact hkeep.2

theorem status_of_checked {s : Store} {task : UInt64} (h : checked s workspace task = .ok t) : t.status = .applyPending := by
  unfold checked at h
  split at h
  · cases h
  · cases h
  · split at h
    · cases h
    · next hr =>
      cases h
      exact status_of_refusal hr

theorem found_resumeApplyBy {seen : Task} (hseen : Picked workspace seen w.store)
    (h : (resumeApplyBy start seen).run.run w = (.finished (.ok (.started id agent)), w')) :
    Found (fun r => r) workspace (fun start => (resumeApplyBy start seen).run) start w w' (.ok (.started id agent)) := by
  obtain ⟨found, hfound, h⟩ := of_run_look_bind h
  cases hseen.task?.symm.trans hfound
  simp only at h
  split at h
  · next hst =>
    refine (found_start hseen (.inr hst) h).after fun start => (run_look_bind _ hfound).trans ?_
    simp only [hst, if_true]
  · cases h

theorem found_dispatchExclusiveBy (hf : Filed w.store)
    (h : (dispatchExclusiveBy start workspace).run.run w = (.finished (.ok (.started id agent)), w')) :
    Found (fun r => r) workspace (fun start => (dispatchExclusiveBy start workspace).run) start w w' (.ok (.started id agent)) := by
  obtain ⟨found, hfound, h⟩ := of_run_look_bind h
  cases found with
  | none => cases h
  | some t =>
    have ht := picked_of_nextTask hf hfound
    refine (found_start ht (.inl (status_of_nextTask hfound)) h).after fun start => ?_
    exact run_look_bind (f := (·.nextTask workspace)) _ hfound

theorem found_dispatchNextBy (hf : Filed w.store)
    (h : (dispatchNextBy start process workspace).run.run w = (.finished (.ok (.started id agent)), w')) :
    Found (fun r => r) workspace (fun start => (dispatchNextBy start process workspace).run) start w w' (.ok (.started id agent)) := by
  obtain ⟨onHold, hhold, h⟩ := of_run_look_bind h
  cases onHold with
  | true => cases h
  | false =>
    obtain ⟨resumable, hresumable, h⟩ := of_run_look_bind h
    cases resumable with
    | some seen =>
      obtain ⟨seens, hlist, hfind⟩ := map_eq_ok_iff.1 hresumable
      have hseen := picked_of_listed hf hlist (List.mem_of_find?_eq_some hfind)
      obtain ⟨hholds, w₁, hlocked, rfl⟩ := of_run_withLock h
      have hfound := found_resumeApplyBy (w := { w with locks := w.locks.request workspace process }) hseen hlocked
      refine (hfound.withLock hholds fun _ _ he => he).after fun start => ?_
      exact (run_isOnHold_bind _ hhold).trans (run_resumableApply_bind _ hresumable)
    | none =>
      obtain ⟨found, hfound, h⟩ := of_run_look_bind h
      cases found with
      | none => cases h
      | some t =>
        have hnext : ∀ start, (dispatchNextBy start process workspace).run.run w =
            (if t.kind.isExclusive then ofResult (withLock process workspace (dispatchExclusiveBy start workspace).run)
              else start t).run.run w := by
          intro start
          refine (run_isOnHold_bind _ hhold).trans ((run_resumableApply_bind _ hresumable).trans ?_)
          exact run_look_bind (f := (·.nextTask workspace)) _ hfound
        simp only at h
        split at h
        · next hexclusive =>
          obtain ⟨hholds, w₁, hlocked, rfl⟩ := of_run_withLock h
          have hexclusively := found_dispatchExclusiveBy (w := { w with locks := w.locks.request workspace process }) hf hlocked
          refine (hexclusively.withLock hholds fun _ _ he => he).after fun start => ?_
          rw [hnext, if_pos hexclusive]
          rfl
        · next hshared =>
          have ht := picked_of_nextTask hf hfound
          refine (found_start ht (.inl (status_of_nextTask hfound)) h).after fun start => ?_
          rw [hnext, if_neg hshared]

theorem found_tryDispatchBy (hf : Filed w.store)
    (h : (tryDispatchBy start cfg process workspace).run.run w = (.finished (.ok (.started id agent)), w')) :
    Found (caught cfg workspace) workspace (fun start => (tryDispatchBy start cfg process workspace).run) start w w' (.ok (.started id agent)) :=
  (found_dispatchNextBy hf (of_run_guarded h)).guarded cfg

theorem found_executeConfirmedApplyBy {task : UInt64} (hf : Filed w.store)
    (h : (executeConfirmedApplyBy start cfg process workspace task).run.run w = (.finished (.ok (.started id agent)), w')) :
    Found (caught cfg workspace) workspace (fun start => (executeConfirmedApplyBy start cfg process workspace task).run) start w w'
      (.ok (.started id agent)) := by
  obtain ⟨r, w₁, hconfirmed, h⟩ := of_run_bind h
  cases (run_confirmedTask w).symm.trans hconfirmed
  cases hchecked : checked w.store workspace task with
  | error e =>
    rw [hchecked] at h
    cases h
  | ok t =>
    rw [hchecked] at h
    obtain ⟨onHold, hhold, h⟩ := of_run_look_bind h
    cases onHold with
    | true => cases h
    | false =>
      obtain ⟨hholds, w₁, hlocked, rfl⟩ := of_run_withLock h
      have ht := picked_of_checked hf hchecked
      have hst := status_of_checked hchecked
      have hfound := found_start (w := { w with locks := w.locks.request workspace process }) ht (.inr hst) (of_run_guarded hlocked)
      refine ((hfound.guarded cfg).withLock hholds fun _ _ => caught_ne_stuck).after fun start => ?_
      have hrun : (confirmedTask workspace task).run.run w = (.finished (.ok t), w) := by rw [run_confirmedTask, hchecked]
      exact (run_bind_ok _ hrun).trans (run_isOnHold_bind _ hhold)

/-! ## The task that an attempt is to start -/

/-- The first confirmed apply of a workspace that has not started. -/
def resumable (s : Store) (workspace : String) : Except StoreError (Option Task) :=
  (s.tasksWhere (·.workspace == workspace)).map fun ts => ts.find? fun u => u.status == .applyPending && u.isApplyConfirmed

/-- The task that an attempt comes to: a confirmed apply that still waits when it is looked at again, or the
    next task if there is no confirmed apply. -/
inductive Picks (s : Store) (workspace : String) (t : Task) : Prop
  | resumed (seen : Task) : resumable s workspace = .ok (some seen) → s.task? seen.id = .ok (some t) →
      t.status = .applyPending → Picks s workspace t
  | next : resumable s workspace = .ok none → s.nextTask workspace = .ok (some t) → Picks s workspace t

/-- Applies that are resumed and exclusive tasks are started under the workspace's lock. -/
def NeedsLock (t : Task) : Prop := t.status = .applyPending ∨ t.kind.isExclusive = true

/-- From the choice on, an attempt is the start of its task, under the workspace's lock if the task needs it.
    The task is looked at again there, and nothing has changed but the locks. -/
theorem run_dispatchNext_of_picks (cfg : Settings) (process : Nat) (hpick : Picks w.store workspace t)
    (hhold : (w.store.workspace? workspace).map (fun ws => ws.any (·.isLocked)) = .ok false) :
    (¬NeedsLock t ∧ (dispatchNext cfg process workspace).run.run w = (dispatchTask cfg process t).run.run w) ∨
    (NeedsLock t ∧ ∃ q : Program World (Except DispatchError DispatchOutcome),
      (∀ v, OnlyLocks w v → q.run v = (dispatchTask cfg process t).run.run v) ∧
      (dispatchNext cfg process workspace).run.run w = (withLock process workspace q).run w) := by
  cases hpick with
  | resumed seen hseen hfound hst =>
    refine .inr ⟨.inl hst, (resumeApply cfg process seen).run, fun v hv => ?_, ?_⟩
    · obtain ⟨locks, rfl⟩ := hv
      refine (run_look_bind (w := { w with locks }) _ hfound).trans ?_
      simp only [hst, if_true]
    · exact (run_isOnHold_bind _ hhold).trans (run_resumableApply_bind _ hseen)
  | next hnone hnext =>
    have hlook : (dispatchNext cfg process workspace).run.run w =
        (if t.kind.isExclusive then ofResult (withLock process workspace (dispatchExclusive cfg process workspace).run)
          else dispatchTask cfg process t).run.run w :=
      (run_isOnHold_bind _ hhold).trans ((run_resumableApply_bind _ hnone).trans
        (run_look_bind (f := (·.nextTask workspace)) _ hnext))
    by_cases hexclusive : t.kind.isExclusive = true
    · rw [if_pos hexclusive] at hlook
      refine .inr ⟨.inr hexclusive, (dispatchExclusive cfg process workspace).run, fun v hv => ?_, hlook⟩
      obtain ⟨locks, rfl⟩ := hv
      exact run_look_bind (f := (·.nextTask workspace)) (w := { w with locks }) _ hnext
    · rw [if_neg hexclusive] at hlook
      refine .inl ⟨?_, hlook⟩
      rintro (hst | hexclusive')
      · cases hst.symm.trans (status_of_nextTask hnext)
      · exact hexclusive hexclusive'

/-- Nothing changed but the queue and who stands in line for locks. -/
def OnlyWaiting (w w' : World) : Prop := ∃ locks queue queueNotified, w' = { w with locks, queue, queueNotified }

theorem onlyWaiting_caught {e : Ending (Except DispatchError DispatchOutcome)} (h : OnlyLocks w w') :
    OnlyWaiting w (caught cfg workspace (e, w')).2 := by
  obtain ⟨locks, rfl⟩ := h
  obtain ⟨queue, queueNotified, hw⟩ := onlyQueue_caught e { w with locks }
  exact ⟨locks, queue, queueNotified, hw⟩

/-- An attempt that has its lock at hand if it needs it is the start of the task that it comes to, under
    the guard. -/
theorem run_tryDispatch_of_picks {K : World → Prop} {e : Ending (Except DispatchError DispatchOutcome)}
    (hpick : Picks w.store workspace t)
    (hhold : (w.store.workspace? workspace).map (fun ws => ws.any (·.isLocked)) = .ok false)
    (hlock : NeedsLock t → (w.locks.request workspace process).holds workspace process = true) (he : e ≠ .stuck)
    (hstart : ∀ v, OnlyLocks w v → ∃ v', (dispatchTask cfg process t).run.run v = (e, v') ∧ K v') :
    ∃ v' w', (tryDispatch cfg process workspace).run.run w = ((caught cfg workspace (e, v')).1, w') ∧ K v' ∧
      OnlyWaiting v' w' := by
  have hguarded : ∀ v' v'', OnlyLocks v' v'' → (dispatchNext cfg process workspace).run.run w = (e, v'') →
      (tryDispatch cfg process workspace).run.run w = ((caught cfg workspace (e, v')).1, (caught cfg workspace (e, v'')).2) := by
    intro v' v'' hlocks hnext
    refine (run_guarded_eq workspace (dispatchNext cfg process workspace) w).trans ?_
    rw [hnext, ← (caught_onlyLocks hlocks e).1]
  rcases run_dispatchNext_of_picks cfg process hpick hhold with ⟨-, hnext⟩ | ⟨hneeds, q, hq, hnext⟩
  · obtain ⟨v', hrun, hK⟩ := hstart w (refl w)
    exact ⟨v', _, hguarded v' v' (refl v') (hnext.trans hrun), hK, onlyWaiting_caught (refl v')⟩
  · obtain ⟨v', hrun, hK⟩ := hstart _ ⟨w.locks.request workspace process, rfl⟩
    have hlocked := run_withLock_of_holds (hlock hneeds) he ((hq _ ⟨_, rfl⟩).trans hrun)
    exact ⟨v', _, hguarded v' _ ⟨_, rfl⟩ (hnext.trans hlocked), hK, onlyWaiting_caught ⟨_, rfl⟩⟩

/-- An attempt whose task needs the lock that somebody else has waits for it. -/
theorem run_tryDispatch_waits (hpick : Picks w.store workspace t)
    (hhold : (w.store.workspace? workspace).map (fun ws => ws.any (·.isLocked)) = .ok false) (hneeds : NeedsLock t)
    (hheld : ¬(w.locks.request workspace process).holds workspace process = true) :
    (tryDispatch cfg process workspace).run.run w = (.stuck, { w with locks := w.locks.request workspace process }) := by
  rcases run_dispatchNext_of_picks cfg process hpick hhold with ⟨hnot, -⟩ | ⟨-, q, -, hnext⟩
  · exact absurd hneeds hnot
  · exact run_guarded_stuck (hnext.trans (run_withLock_stuck q hheld))

end Dispatch

end TaskFleet
