/-
  TaskFleet.Proofs.Dispatch.HandOvers — who hands a task over, and who puts it back.

  Attempts of any number of orchestrators and sweeps interleave with each other, with
  executors, with operators and with the clock. A claim moves the row, so of two attempts that
  saw a task waiting one is refused, whatever the lease says; an attempt that goes on after its
  claim relies on nothing but that the row stays where it is.
  - `leads_handOver`, `leads_startLocal`, `leads_tryDispatch`, `leads_executeConfirmedApply`: an
    attempt keeps to the rules of claims, and has handed over what it says it started.
  - `OutsideClaims`, `BeginsAttemptOrSweep`: everybody who takes part.
  - `tasks_are_handed_over_once`: without sweeps, once for its plan and once for its apply.
  - `claims_are_put_back_by_their_owner`: or a sweep has put the task back before.
-/

import TaskFleet.Proofs.Dispatch.ClaimSteps

namespace TaskFleet.Claims

open Fallible Dispatch

variable {S : Nat → Prop} {cfg : Settings} {i j : Nat} {c d : Scene World History} {h : History} {s s' : Store}
  {t t' : Task} {w w' : World} {task : UInt64} {α β : Type}

/-! ## What an attempt answers -/

/-- Who answers that a task was started has handed it over. -/
def Told (i : Nat) (r : Except DispatchError DispatchOutcome) (c : Scene World History) : Prop :=
  ∀ task agent, r = .ok (.started task agent) → ∃ action, .handedOver i task action ∈ c.memory

theorem Told.follows {r : Except DispatchError DispatchOutcome} (hc : Told i r c) (h : Follows S i c d) : Told i r d := by
  intro task agent hr
  obtain ⟨action, hm⟩ := hc task agent hr
  exact ⟨action, h.1.subset hm⟩

theorem told_error {e : DispatchError} : Told i (.error e) c := fun _ _ h => by cases h

theorem told_of_ne {o : DispatchOutcome} (ho : ∀ task agent, o ≠ .started task agent) : Told i (.ok o) c :=
  fun task agent h => absurd (Except.ok.inj h) (ho task agent)

theorem leads_ended {o : DispatchOutcome} (ho : ∀ task agent, o ≠ .started task agent) :
    (claims S).Leads i (pure o) (fun o d => Told i (.ok o) d) c := Discipline.leads_pure fun _ _ => told_of_ne ho

theorem leads_retryAfter (seen : Task) (delay : Duration) (reason : RetryReason) :
    (claims S).Leads i (retryAfter seen delay reason) (fun o d => Told i (.ok o) d) c :=
  .bind (leads_calm (steps_aside (steps_schedule _ _))) fun _ _ _ => leads_ended fun _ _ h => by cases h

theorem leads_retryWithBackoff (seen : Task) (reason : RetryReason) :
    (claims S).Leads i (retryWithBackoff cfg seen reason) (fun o d => Told i (.ok o) d) c :=
  .bind (leads_calm (steps_countRetry _)) fun _ _ _ => leads_retryAfter _ _ _

theorem leads_handOver (target : Target) :
    (claims S).Leads i (handOver cfg i t target) (fun o d => Told i (.ok o) d) c := by
  refine .bind (leads_claim t (some target.agent)) fun r d hr => ?_
  match r with
  | .error e => exact .bind (leads_calm (steps_aside (steps_release _))) fun _ _ _ => leads_retryWithBackoff _ _
  | .ok none =>
    exact .bind (leads_calm (steps_aside (steps_release _))) fun _ _ _ => leads_ended fun _ _ h => by cases h
  | .ok (some row) =>
    obtain ⟨hw, -, -, hh⟩ := hr row rfl
    refine .bind (leads_sendTask (m := ⟨t.id, t.workspace, actionFor t⟩) target.agent hw rfl hh) fun r' e he => ?_
    cases r' with
    | ok u =>
      have hend : ∀ f, Delivered S i ⟨t.id, t.workspace, actionFor t⟩ t.status true f → (claims S).Leads i
          (settle cfg t.id >>= fun _ => pure (DispatchOutcome.started t.id (some target.agent)))
          (fun o d => Told i (.ok o) d) f := by
        intro f hf
        refine .bind (leads_settle hf.1) fun _ g hfg => Discipline.leads_pure fun k hgk task agent hstarted => ?_
        cases hstarted
        exact ⟨_, ((hf.follows hfg).follows hgk).2 rfl⟩
      cases target.place with
      | none => exact hend e he
      | some p => exact .bind (leads_calm (steps_aside (steps_onCapacity _))) fun _ f hf => hend f (he.follows hf)
    | error err =>
      refine .bind (leads_holding (steps_aside (steps_release _)) he.1) fun _ f hf => ?_
      exact .bind (leads_rollBack hw hf) fun _ _ _ => leads_retryWithBackoff _ _

/-- Work on this machine goes by the stage of the row, which goes by the status it was claimed in. -/
theorem localAction_of_stage {row : Task} (h : row.stage = some t.stageOnStart) :
    localAction row = actionOf t.status := by
  unfold localAction actionOf
  rw [h]
  unfold Task.stageOnStart
  split <;> simp

theorem leads_startLocal : (claims S).Leads i (startLocal cfg t) (fun o d => Told i (.ok o) d) c := by
  refine .bind (leads_claim t none) fun r d hr => ?_
  match r with
  | .error e => exact leads_retryWithBackoff _ _
  | .ok none => exact leads_ended fun _ _ h => by cases h
  | .ok (some row) =>
    obtain ⟨hw, hid, hstage, hh⟩ := hr row rfl
    refine .bind (leads_settle hh) fun _ e hde => ?_
    have he : HeldAt S e i row.id t.status false := hid ▸ hde.2 _ _ _ hh
    refine .bind (leads_askFor hw (localAction_of_stage hstage) he) fun _ f hf => ?_
    refine Discipline.leads_pure fun g hfg task agent hstarted => ?_
    cases hstarted
    exact ⟨_, hfg.1.subset (hid ▸ hf)⟩

theorem leads_pushToPool (pool : String) (onPods : Bool) (place : Option Placement) :
    (claims S).Leads i (pushToPool cfg i t pool onPods place) (fun o d => Told i (.ok o) d) c := by
  refine .bind (leads_calm (steps_aside (Agent.steps_connected aside_refl))) fun connected d _ => ?_
  split
  · refine .bind (leads_calm (steps_aside (steps_release _))) fun _ e _ => ?_
    split
    · exact .bind (leads_calm (Program.steps_modify fun _ => unnoticed_spawn fun _ h => by cases h)) fun _ _ _ =>
        leads_retryAfter _ _ _
    · exact leads_retryAfter _ _ _
  · refine .bind (leads_calm (steps_aside (steps_findTarget _ _ _ _))) fun target e _ => ?_
    cases target with
    | none => exact leads_retryWithBackoff _ _
    | some target => exact leads_handOver target

theorem leads_pushToAgent (ws : Workspace) :
    (claims S).Leads i (pushToAgent cfg i t ws) (fun o d => Told i (.ok o) d) c := by
  unfold pushToAgent pushToAgentBy
  cases ws.pool with
  | none => exact leads_retryAfter _ _ _
  | some pool =>
    simp only
    split
    · refine .bind (leads_calm (steps_aside (steps_findSlot pool))) fun place d _ => ?_
      cases place with
      | none => exact leads_retryWithBackoff _ _
      | some place => exact leads_pushToPool pool true (some place)
    · exact leads_pushToPool pool false none

/-! ## Choosing a task -/

theorem leads_look {γ : Type} {f : Store → Except StoreError γ} {k : γ → Fallible DispatchError DispatchOutcome}
    (hk : ∀ a d, (claims S).Leads i (k a).run (Told i) d) : (claims S).Leads i (look f >>= k).run (Told i) c :=
  .bind_run (leads_calm (steps_aside (steps_look f))) (fun a d _ => hk a d) fun _ _ _ => told_error

theorem leads_answer {o : DispatchOutcome} (ho : ∀ task agent, o ≠ .started task agent) :
    (claims S).Leads i (pure o : Fallible DispatchError DispatchOutcome).run (Told i) c :=
  Discipline.leads_pure fun _ _ => told_of_ne ho

theorem leads_refuse {e : DispatchError} :
    (claims S).Leads i (throw e : Fallible DispatchError DispatchOutcome).run (Told i) c :=
  Discipline.leads_pure fun _ _ => told_error

theorem leads_dispatchTask : (claims S).Leads i (dispatchTask cfg i t).run (Told i) c := by
  unfold dispatchTask dispatchTaskBy
  split
  · exact leads_refuse
  · refine leads_look fun found d => ?_
    cases found with
    | none => exact leads_refuse
    | some ws =>
      simp only
      split
      · exact .always leads_startLocal
      · exact .always (leads_pushToAgent ws)

theorem leads_resumeApply (seen : Task) : (claims S).Leads i (resumeApply cfg i seen).run (Told i) c := by
  refine leads_look fun found d => ?_
  cases found with
  | none => exact leads_answer fun _ _ h => by cases h
  | some current =>
    simp only
    split
    · exact leads_dispatchTask
    · exact leads_answer fun _ _ h => by cases h

theorem leads_dispatchExclusive (workspace : String) :
    (claims S).Leads i (dispatchExclusive cfg i workspace).run (Told i) c := by
  refine leads_look fun found d => ?_
  cases found with
  | none => exact leads_answer fun _ _ h => by cases h
  | some t => exact leads_dispatchTask

theorem leads_withLock {p : Program World (Except DispatchError DispatchOutcome)} (workspace : String)
    (hp : ∀ d, (claims S).Leads i p (Told i) d) : (claims S).Leads i (Program.withLock i workspace p) (Told i) c := by
  refine .bind (leads_calm (steps_aside (steps_requestLock i workspace))) fun _ d _ => ?_
  refine Discipline.Ensures.andFinally (Discipline.Ensures.mono (hp d) fun r e _ hr => ?_)
  refine Discipline.Ensures.mono (leads_calm (steps_aside (steps_unlock i workspace))) fun u f _ hu => ?_
  cases u with
  | ok u => exact fun a ha => (hr a ha).follows (hu u rfl)
  | error m => exact fun a ha => by cases ha

theorem leads_dispatchNext (workspace : String) : (claims S).Leads i (dispatchNext cfg i workspace).run (Told i) c := by
  refine leads_look fun onHold d => ?_
  cases onHold with
  | true => exact leads_answer fun _ _ h => by cases h
  | false =>
    refine leads_look fun resumable e => ?_
    cases resumable with
    | some seen => exact leads_withLock workspace fun f => leads_resumeApply seen
    | none =>
      refine leads_look fun found f => ?_
      cases found with
      | none => exact leads_answer fun _ _ h => by cases h
      | some t =>
        simp only
        split
        · exact leads_withLock workspace fun g => leads_dispatchExclusive workspace
        · exact leads_dispatchTask

/-! ## Attempts -/

theorem leads_guarded {p : Fallible DispatchError DispatchOutcome} (workspace : String)
    (hp : (claims S).Leads i p.run (Told i) c) : (claims S).Leads i (guarded cfg workspace p).run (Told i) c := by
  refine .bind (R := fun r d => ∀ result, r = .ok result → Told i result d) (.attempt ?_ fun _ _ _ h => by cases h)
    fun r d hd => ?_
  · exact hp.mono fun r d hr result h => by cases h; exact hr
  · cases r with
    | ok result => exact Discipline.leads_pure fun e he => (hd result rfl).follows he
    | error m =>
      exact .bind (leads_calm (steps_aside (steps_schedule _ _))) fun _ _ _ => Discipline.leads_pure fun _ _ => told_error

theorem leads_tryDispatch (workspace : String) : (claims S).Leads i (tryDispatch cfg i workspace).run (Told i) c :=
  leads_guarded workspace (leads_dispatchNext workspace)

theorem leads_executeConfirmedApply (workspace : String) (task : UInt64) :
    (claims S).Leads i (executeConfirmedApply cfg i workspace task).run (Told i) c := by
  unfold executeConfirmedApply executeConfirmedApplyBy
  rw [confirmedTask_eq, LawfulMonad.bind_assoc]
  refine leads_look fun found d => ?_
  cases found with
  | none => exact leads_refuse
  | some t =>
    simp only
    cases refusal workspace task t with
    | some e => exact leads_refuse
    | none =>
      simp only [pure_bind]
      refine leads_look fun onHold e => ?_
      cases onHold with
      | true => exact leads_answer fun _ _ h => by cases h
      | false => exact leads_withLock workspace fun f => leads_guarded workspace leads_dispatchTask

/-! ## Sweeps -/

/-- The store stays as it is, or a running row is given back. -/
def GivesBack (s s' : Store) : Prop :=
  s' = s ∨ (s.Keyed → ∃ t t', s.Holds t ∧ t.giveBack = .ok t' ∧ s' = s.setTask t')

/-- A step of the world that no task notices, or that gives a running row back. -/
def Sweeps (w w' : World) : Prop :=
  w.store.Keyed → Calm w w' ∨
    ∃ t t', w.store.Holds t ∧ t.giveBack = .ok t' ∧ w' = { w with store := w.store.setTask t' }

theorem steps_reclaimEach (ts : List Task) : (StoreProgram.reclaimEach ts).run.Steps GivesBack := by
  induction ts with
  | nil => exact Program.steps_pure _
  | cons t ts ih =>
    refine .bind_run (Program.steps_apply fun s => ?_) fun _ => .bind_run ih fun _ => Program.steps_pure _
    simp only
    cases hr : s.reclaim t.id with
    | error e => exact .inl rfl
    | ok r =>
      refine .inr fun hk => ?_
      obtain ⟨u, hu, -, hch, hset⟩ := hk.of_updateTask hr
      exact ⟨u, r.1, hu, hch, hset (Task.tame_giveBack hch).id⟩

theorem steps_sweep (now : UInt64) : (Recovery.sweep now).run.Steps Sweeps := by
  refine Recovery.steps_sweep (S := GivesBack) (fun _ => .inl rfl) (fun w s' hs hk => ?_) (fun w ws hk => ?_) now
    steps_reclaimEach
  · rcases hs with rfl | hwrite
    · exact .inl (unnoticed_of_aside (aside_refl w) hk)
    · obtain ⟨t, t', ht, hback, rfl⟩ := hwrite hk
      exact .inr ⟨t, t', ht, hback, rfl⟩
  · exact .inl (unnoticed_of_aside ⟨rfl, rfl, rfl, rfl, rfl⟩ hk)

theorem rowEvents_of_idle (hidle : t.status ≠ .running) (hidle' : t'.status ≠ .running) (hne : t'.status ≠ t.status) :
    rowEvents i t t' = [] := by
  unfold rowEvents
  rw [if_neg (fun h => hidle' h.2), if_neg (fun h => hidle h.1), if_neg (fun h => hne h.2.1)]

/-- Only a running row goes back to wait; a pending one that claims to be applying is moved on. -/
theorem turn_giveBack (hS : S i) (hback : t.giveBack = .ok t') :
    Turn S (some i) h t.id (some t.status) (rowEvents i t t') (some t'.status) := by
  have hid := (Task.tame_giveBack hback).id
  have hswept : ∀ s, t.status = .running → t'.status = s → Waits s →
      Turn S (some i) h t.id (some t.status) (rowEvents i t t') (some t'.status) := by
    rintro s hrun rfl hw
    rw [rowEvents_putBack hrun hw, hid, hrun]
    exact .swept i _ rfl hS hw
  obtain ⟨-, hm, hrow⟩ | ⟨-, hm, hrow⟩ := Store.giveBack_ok_iff.1 hback
  · have hst' : t'.status = .applyPending := by rw [hrow]
    cases hst : t.status with
    | running => exact hst ▸ hswept _ hst hst' (.inr rfl)
    | pending =>
      rw [rowEvents_of_idle (by rw [hst]; decide) (by rw [hst']; decide) (by rw [hst, hst']; decide), hst']
      exact .moved
    | applyPending | success | applied | plannedAndFinished | failed | cancelled => rw [hst] at hm; cases hm
  · have hst' : t'.status = .pending := by rw [hrow]
    cases hst : t.status with
    | running => exact hst ▸ hswept _ hst hst' (.inl rfl)
    | pending | applyPending | success | applied | plannedAndFinished | failed | cancelled => rw [hst] at hm; cases hm

theorem leads_sweeps {q : Program World α} (hS : S i) (hq : q.Steps Sweeps) :
    (claims S).Leads i q (fun _ _ => True) c := by
  have hsteps := Discipline.Ensures.of_steps (D := claims S) (i := i) (F := fun _ => True) (c := c) hq
    (fun _ _ _ _ => trivial) (fun d act hi _ hs => ⟨?_, trivial⟩) trivial
  · exact hsteps.mono fun _ _ _ _ _ _ => trivial
  · rcases hs hi.keyed with hcalm | ⟨t, t', ht, hback, hact⟩
    · exact keeps_of_goes hi (hcalm.goes (some i) 0)
    · have hgoes : Goes S (some i) d (next i d (act d.state)) t.id := by
        rw [hact]
        exact goes_setTask hi ht (Task.tame_giveBack hback).id (turn_giveBack hS hback)
      exact keeps_of_goes hi hgoes

/-! ## Everybody else -/

/-- What somebody outside may do to a row: leave its status alone, end the task, or move it on
    to wait for its apply. A running task that was claimed moves on only after it was handed
    over for its plan. -/
inductive MayChange (h : History) (t t' : Task) : Prop
  | stay : t'.status = t.status → MayChange h t t'
  | ended : t'.status.isTerminal = true → MayChange h t t'
  | move : t.status = .pending → t'.status = .applyPending → MayChange h t t'
  | planned : t.status = .running → t'.status = .applyPending →
      (∀ a, hold h t.id = some a → a.source = .pending ∧ a.sent = true) → MayChange h t t'

/-- What is seen of such a change. -/
def changeEvents (t t' : Task) : History :=
  if t.status = .running ∧ t'.status = .applyPending then [.putBack none t.id] else []

/-- What happens beside the processes: tasks are submitted, executors, agents and operators
    change rows, and everything but the rows may change at any time, the clocks included. -/
inductive OutsideClaims (c : Scene World History) : Scene World History → Prop
  /-- A task is created while the counter of IDs has a fresh one. -/
  | create {t' : Task} {s' : Store} (t : Task) : t.status = .pending →
      (∀ u, c.state.store.Holds u → u.id ≠ c.state.store.lastTaskId + 1) →
      c.state.store.createTask t = some (t', s') → OutsideClaims c ⟨{ c.state with store := s' }, c.memory⟩
  | change (t t' : Task) : c.state.store.Holds t → t'.id = t.id → MayChange c.memory t t' →
      OutsideClaims c ⟨{ c.state with store := c.state.store.setTask t' }, c.memory ++ changeEvents t t'⟩
  | surroundings (w : World) : w.store.tasks = c.state.store.tasks → OutsideClaims c ⟨w, c.memory⟩

/-- The processes that begin, each with settings of its own; those of `S` sweep, the others
    are attempts. -/
inductive BeginsAttemptOrSweep (S : Nat → Prop) (c : Scene World History) (process : Nat) :
    Program World (Option DispatchOutcome) → Scene World History → Prop
  | dispatch (cfg : Settings) (workspace : String) : ¬S process →
      BeginsAttemptOrSweep S c process (Except.toOption <$> (tryDispatch cfg process workspace).run) c
  | apply (cfg : Settings) (workspace : String) (task : UInt64) : ¬S process →
      BeginsAttemptOrSweep S c process (Except.toOption <$> (executeConfirmedApply cfg process workspace task).run) c
  | sweep (now : UInt64) : S process → BeginsAttemptOrSweep S c process ((fun _ => none) <$> (Recovery.sweep now).run) c

theorem statusOf_eq_none (hk : s.Keyed) (h : ∀ u, s.Holds u → u.id ≠ task) : statusOf s task = none := by
  unfold statusOf
  cases hrow : s.tasks.get? (taskKey task) with
  | none => rfl
  | some row =>
    obtain ⟨u, rfl, hkey⟩ := hk _ _ hrow
    rw [hkey] at hrow
    exact absurd (taskKey_inj.1 hkey).symm (h u hrow)

theorem MayChange.turn (hm : MayChange h t t') :
    Turn S none h t.id (some t.status) (changeEvents t t') (some t'.status) := by
  unfold changeEvents
  cases hm with
  | stay hst =>
    rw [if_neg (by rintro ⟨hrun, hst'⟩; rw [hst, hrun] at hst'; cases hst'), hst]
    exact .rest _
  | ended hend =>
    rw [if_neg (by rintro ⟨-, hst'⟩; rw [hst'] at hend; cases hend)]
    exact .ended _ _ (by simp) hend
  | move hpending hst' =>
    rw [if_neg (by rintro ⟨hrun, -⟩; rw [hpending] at hrun; cases hrun), hpending, hst']
    exact .moved
  | planned hrun hst' hplan =>
    rw [if_pos ⟨hrun, hst'⟩, hrun, hst']
    exact .planned rfl hplan

/-- Whatever happens beside the processes is a turn of one task. -/
theorem OutsideClaims.goes (hi : Inv S c) (ho : OutsideClaims c d) : ∃ task, Goes S none c d task := by
  cases ho with
  | @create new _ t hpending hfresh h =>
    obtain ⟨-, hnew, hstore⟩ := Store.createTask_cases h
    obtain ⟨counted, hcounted⟩ :
        ∃ counted, counted = { c.state.store with lastTaskId := c.state.store.lastTaskId + 1 } := ⟨_, rfl⟩
    have hrows : counted.tasks = c.state.store.tasks := by rw [hcounted]
    have hid : new.id = c.state.store.lastTaskId + 1 := by rw [hnew]
    have hstatus : new.status = .pending := by rw [hnew]; exact hpending
    rw [hstore, ← hcounted]
    refine ⟨new.id, (hi.keyed.congr hrows).setTask new, ⟨[], (List.append_nil _).symm, ?_⟩, fun u hu => ?_⟩
    · show Turn S none c.memory new.id _ [] (statusOf (counted.setTask new) new.id)
      rw [statusOf_setTask_self, hstatus, statusOf_eq_none hi.keyed fun u hu => hid ▸ hfresh u hu]
      exact .created
    · exact (statusOf_setTask_of_ne hu).trans (statusOf_congr hrows)
  | change t t' ht hid hm =>
    refine ⟨t.id, hi.keyed.setTask t', ⟨_, rfl, ?_⟩, fun u hu => statusOf_setTask_of_ne (hid ▸ hu)⟩
    show Turn S none c.memory t.id _ _ (statusOf (c.state.store.setTask t') t.id)
    have hafter : statusOf (c.state.store.setTask t') t.id = some t'.status := hid ▸ statusOf_setTask_self
    rw [hafter, statusOf_of_holds ht]
    exact hm.turn
  | surroundings w hrows =>
    refine ⟨0, hi.keyed.congr hrows, ⟨[], (List.append_nil _).symm, ?_⟩, fun u _ => statusOf_congr hrows⟩
    show Turn S none c.memory 0 _ [] (statusOf w.store 0)
    rw [statusOf_congr hrows]
    exact .rest _

/-- What an answer says when it is given, and from then on. -/
def Answered (i : Nat) (answer : Option DispatchOutcome) (c : Scene World History) : Prop :=
  ∀ task agent, answer = some (.started task agent) → ∃ action, .handedOver i task action ∈ c.memory

theorem leads_attempt {p : Fallible DispatchError DispatchOutcome} (hp : (claims S).Leads i p.run (Told i) c) :
    (claims S).Leads i (Except.toOption <$> p.run) (Answered i) c := by
  rw [map_eq_pure_bind]
  refine .bind hp fun r d hd => Discipline.leads_pure fun e hde task agent h => ?_
  cases r with
  | ok o => exact (hd.follows hde) task agent (congrArg Except.ok (Option.some.inj h))
  | error err => cases h

theorem BeginsAttemptOrSweep.leads {p : Program World (Option DispatchOutcome)} (hb : BeginsAttemptOrSweep S c i p d) :
    d = c ∧ (claims S).Leads i p (Answered i) c := by
  cases hb with
  | dispatch cfg workspace _ => exact ⟨rfl, leads_attempt (leads_tryDispatch workspace)⟩
  | apply cfg workspace task _ => exact ⟨rfl, leads_attempt (leads_executeConfirmedApply workspace task)⟩
  | sweep now hS =>
    refine ⟨rfl, ?_⟩
    rw [map_eq_pure_bind]
    exact .bind (leads_sweeps hS (steps_sweep now)) fun _ _ _ => Discipline.leads_pure fun _ _ _ _ h => by cases h

theorem keeping (hk : w.store.Keyed) : (claims S).Keeping OutsideClaims (BeginsAttemptOrSweep S) ⟨w, []⟩
    fun i r d => ∀ answer, r = .ok answer → Answered i answer d where
  first := ⟨hk, .nil, fun _ => fine_nil⟩
  outside := by
    intro c d hi ho
    obtain ⟨task, hg⟩ := ho.goes hi
    exact ⟨Inv.goes hi hg, fun j => hg.follows fun h => by cases h⟩
  begins := by
    intro c i p d hi hb
    obtain ⟨rfl, hleads⟩ := hb.leads
    exact ⟨⟨hi, fun j _ => .refl S j d⟩, hleads⟩

/-! ## Handed over once -/

def nobody (_ : Nat) : Prop := False

/-- Whether an event hands the task over for this. -/
def ClaimEvent.handsOver (task : UInt64) (action : AgentAction) : ClaimEvent → Bool
  | .handedOver _ t a => t == task && a == action
  | _ => false

/-- The status in which a task is claimed to be handed over for this. -/
def sourceOf : AgentAction → TaskStatus
  | .plan => .pending
  | .apply => .applyPending

theorem sourceOf_actionOf {source : TaskStatus} (hw : Waits source) : sourceOf (actionOf source) = source := by
  rcases hw with rfl | rfl <;> rfl

theorem ClaimsAllowed.countP_le_one {action : AgentAction} (hs : ClaimsAllowed nobody h) :
    h.countP (ClaimEvent.handsOver task action) ≤ 1 := by
  induction hs with
  | nil => simp
  | @snoc h e _ ha ih =>
    rw [List.countP_append, List.countP_singleton]
    split
    · next he =>
      cases e with
      | handedOver i t a =>
        simp only [ClaimEvent.handsOver, Bool.and_eq_true, beq_iff_eq] at he
        obtain ⟨rfl, rfl⟩ := he
        -- nobody sweeps, so the event may come only where no other one is
        have hfresh : ∀ e ∈ h, ¬ClaimEvent.handsOver t a e = true := by
          intro e he hover
          cases e with
          | handedOver j u b =>
            simp only [ClaimEvent.handsOver, Bool.and_eq_true, beq_iff_eq] at hover
            obtain ⟨rfl, rfl⟩ := hover
            exact ha.2 (fun _ hi => hi.elim) j he
          | _ => cases hover
        have hnone : h.countP (ClaimEvent.handsOver t a) = 0 := List.countP_eq_zero.2 hfresh
        omega
      | _ => cases he
    · exact ih

/-- Without sweeps, each task is handed over at most once for its plan and at most once for its
    apply, by a process that has claimed it in the status for that; and an attempt has handed
    over what it says it started. -/
theorem tasks_are_handed_over_once {w : World} {c : Scene World History}
    {crew : List (Program World (Option DispatchOutcome))} (hk : w.store.Keyed)
    (hrun : (claims nobody).Run OutsideClaims (BeginsAttemptOrSweep nobody) ⟨w, []⟩ c crew) :
    (∀ task action, c.memory.countP (ClaimEvent.handsOver task action) ≤ 1) ∧
      (∀ before i task action after, c.memory = before ++ .handedOver i task action :: after →
        .claimed i task (sourceOf action) ∈ before) ∧
      ∀ i task agent, crew[i]? = some (.done (some (.started task agent))) →
        ∃ action, .handedOver i task action ∈ c.memory := by
  have hsound : ClaimsAllowed nobody c.memory := Inv.sound (hrun.sound (keeping hk)).1
  refine ⟨fun task action => hsound.countP_le_one, fun before i task action after hm => ?_, fun i task agent hp => ?_⟩
  · obtain ⟨⟨source, hw, rfl, hclaimed⟩, -⟩ := hsound.allowed hm
    rw [sourceOf_actionOf hw]
    exact hclaimed
  · exact hrun.ended (keeping hk) hp _ rfl task agent rfl

/-- A task that is to be planned on this machine. -/
def onePlan : World where
  store := ((({} : Store).putWorkspace { id := "ws", mode := .onHost }).addTask (.submitted "ws" .plan 0 .manual) 1).2
  clock := 0

def attempt (holder : String) (process : Nat) : Program World (Option DispatchOutcome) :=
  Except.toOption <$> (tryDispatch { holder } process "ws").run

theorem keyed_onePlan : onePlan.store.Keyed := by
  have hempty : Store.Keyed { ({} : Store).putWorkspace { id := "ws", mode := .onHost } with lastTaskId := 1 } :=
    Store.keyed_empty.congr rfl
  exact hempty.setTask _

/-- The first of two attempts of one holder has seen the task waiting. -/
def seenWaiting : Program World (Option DispatchOutcome) × Scene World History :=
  (claims nobody).carry 0 5 (attempt "a" 0) ⟨onePlan, []⟩

theorem tasks_are_handed_over_once_two_attempts :
    ∃ c, (claims nobody).Run OutsideClaims (BeginsAttemptOrSweep nobody) ⟨onePlan, []⟩ c
        [.done (some (.skipped 1)), .done (some (.started 1 none))] ∧
      c.memory = [.claimed 1 1 .pending, .settled 1 1, .handedOver 1 1 .plan] ∧
      ∀ task action, c.memory.countP (ClaimEvent.handsOver task action) ≤ 1 := by
  have hstart : (claims nobody).Run OutsideClaims (BeginsAttemptOrSweep nobody) ⟨onePlan, []⟩ ⟨onePlan, []⟩ [] := .start
  have hfirst := hstart.begins (.dispatch { holder := "a" } "ws" (fun h => h))
  have hboth := hfirst.begins (.dispatch { holder := "a" } "ws" (fun h => h))
  have hseen := hboth.carry (i := 0) (p := attempt "a" 0) rfl 5
  have hstarted := hseen.carry (i := 1) (p := attempt "a" 1) rfl 50
  have hrefused := hstarted.carry (i := 0) (p := seenWaiting.1) rfl 50
  exact ⟨_, hrefused, rfl, (tasks_are_handed_over_once keyed_onePlan hrefused).1⟩

/-! ## Put back by the owner -/

/-- Only who holds the claim on a task puts it back, except that a sweep may have taken the
    task from an attempt, which then goes on as if it had not. The note that a task is on its
    way is likewise made on an attempt's own claim, or after it was robbed of that. -/
theorem claims_are_put_back_by_their_owner {w : World} {c : Scene World History}
    {crew : List (Program World (Option DispatchOutcome))} (hk : w.store.Keyed)
    (hrun : (claims S).Run OutsideClaims (BeginsAttemptOrSweep S) ⟨w, []⟩ c crew) :
    (∀ before i task after, c.memory = before ++ .putBack (some i) task :: after → ¬S i →
      Owns before i task ∨
        (∃ source j, Robbed before i task source (some j)) ∧ ∃ k, S k ∧ .putBack (some k) task ∈ before) ∧
      ∀ before i task after, c.memory = before ++ .settled i task :: after →
        Owns before i task ∨ ∃ source x, Robbed before i task source x := by
  have hsound : ClaimsAllowed S c.memory := Inv.sound (hrun.sound (keeping hk)).1
  refine ⟨fun before i task after hm hi => ?_, fun before i task after hm => hsound.allowed hm⟩
  rcases hsound.allowed hm with hS | howns | ⟨source, j, hrobbed, hswept⟩
  · exact absurd hS hi
  · exact .inl howns
  · refine .inr ⟨⟨source, j, hrobbed⟩, Classical.byContradiction fun hnone => hswept fun k hk hm => ?_⟩
    exact hnone ⟨k, hk, hm⟩

/-- A task that is to be planned on an agent. Of two agents, the first has a full mailbox. -/
def fullMailbox : World where
  store :=
    ((({} : Store).putWorkspace { id := "ws", mode := .agent, pool := some "pool" }).addTask
      (.submitted "ws" .plan 0 .manual) 1).2
  registry :=
    ((({} : Registry).connect "agent-1" (some "pool") none).connect "agent-2" (some "pool") none).modifyMailbox 0
      fun b => { b with messages := List.replicate Mailbox.capacity ⟨9, "other", .plan⟩ }
  clock := 0

/-- The same with the way to the agents disturbed. -/
def disturbed : World := { fullMailbox with sendFault := some "down" }

theorem keyed_fullMailbox : fullMailbox.store.Keyed := by
  have hempty : Store.Keyed { ({} : Store).putWorkspace { id := "ws", mode := .agent, pool := some "pool" } with
      lastTaskId := 1 } := Store.keyed_empty.congr rfl
  exact hempty.setTask _

theorem claims_are_put_back_by_their_owner_one_failed_send :
    ∃ c, (claims nobody).Run OutsideClaims (BeginsAttemptOrSweep nobody) ⟨disturbed, []⟩ c
        [.done (some (.retry 1 (.ofSecs 5) .sendFailed))] ∧
      c.memory = [.claimed 0 1 .pending] ++ .putBack (some 0) 1 :: [] ∧ Owns [.claimed 0 1 .pending] 0 1 := by
  have hstart : (claims nobody).Run OutsideClaims (BeginsAttemptOrSweep nobody) ⟨disturbed, []⟩ ⟨disturbed, []⟩ [] :=
    .start
  have hbegun := hstart.begins (.dispatch { holder := "a" } "ws" (fun h => h))
  have hfailed := hbegun.carry (i := 0) (p := attempt "a" 0) rfl 50
  have hkeyed : disturbed.store.Keyed := keyed_fullMailbox
  have hback := (claims_are_put_back_by_their_owner (S := nobody) hkeyed hfailed).1
  rcases hback [.claimed 0 1 .pending] 0 1 [] rfl (fun h => h) with howns | ⟨-, k, hk, -⟩
  · exact ⟨_, hfailed, rfl, howns⟩
  · exact hk.elim

/-- The second process sweeps. -/
def second (i : Nat) : Prop := i = 1

abbrev RunsTo : Scene World History → List (Program World (Option DispatchOutcome)) → Prop :=
  (claims second).Run OutsideClaims (BeginsAttemptOrSweep second) ⟨fullMailbox, []⟩

/-- An attempt has claimed the task and waits for room in the mailbox. -/
def waitingForRoom : Program World (Option DispatchOutcome) × Scene World History :=
  (claims second).carry 0 50 (attempt "a" 0) ⟨fullMailbox, []⟩

/-- Its lease has run out, and its agent takes no more tasks. -/
def leaseRanOut : World :=
  { waitingForRoom.2.state with
    clock := 61000
    registry.connections := waitingForRoom.2.state.registry.connections.modify "agent-1" fun a =>
      { a with status.planRunning := 3 } }

def sweepAt (now : UInt64) : Program World (Option DispatchOutcome) := (fun _ => none) <$> (Recovery.sweep now).run

/-- A sweep took the task back. -/
def takenBack : Program World (Option DispatchOutcome) × Scene World History :=
  (claims second).carry 1 50 (sweepAt 61) ⟨leaseRanOut, waitingForRoom.2.memory⟩

/-- An attempt of another holder has handed it over to the other agent. -/
def startedByOther : Program World (Option DispatchOutcome) × Scene World History :=
  (claims second).carry 2 50 (attempt "b" 2) takenBack.2

/-- The first agent has hung up. -/
def hungUp : World :=
  { startedByOther.2.state with registry := (startedByOther.2.state.registry.hangUp "agent-1").2 }

theorem run_hungUp : RunsTo ⟨hungUp, startedByOther.2.memory⟩
    [waitingForRoom.1, .done none, .done (some (.started 1 (some "agent-2")))] := by
  have hstart : RunsTo ⟨fullMailbox, []⟩ [] := .start
  have hbegun := hstart.begins (.dispatch { holder := "a" } "ws" Nat.zero_ne_one)
  have hwaits := hbegun.carry (i := 0) (p := attempt "a" 0) rfl 50
  have hlate := hwaits.outside (.surroundings leaseRanOut rfl)
  have hsweeps := hlate.begins (.sweep 61 rfl)
  have htaken := hsweeps.carry (i := 1) (p := sweepAt 61) rfl 50
  have hother := htaken.begins (.dispatch { holder := "b" } "ws" (by decide : (2 : Nat) ≠ 1))
  have hstarted := hother.carry (i := 2) (p := attempt "b" 2) rfl 50
  exact hstarted.outside (.surroundings hungUp rfl)

theorem memory_hungUp : startedByOther.2.memory =
    [.claimed 0 1 .pending, .putBack (some 1) 1, .claimed 2 1 .pending, .handedOver 2 1 .plan, .settled 2 1] := by rfl

/-- The task's row while it is on its way to the other agent. -/
def otherRow : Task :=
  { Task.submitted "ws" .plan 0 .manual with
    id := 1
    status := .running
    stage := some .planning
    agent := some "agent-2"
    startedAt := some 61 }

/-- The first attempt's send has failed. -/
def putBackLate : Program World (Option DispatchOutcome) × Scene World History :=
  (claims second).carry 0 50 waitingForRoom.1 ⟨hungUp, startedByOther.2.memory⟩

theorem memory_putBackLate : putBackLate.2.memory = startedByOther.2.memory ++ [.putBack (some 0) 1] := by rfl

/-- An attempt whose send fails late puts the running task back to pending, although the claim
    on it is another's by now and the task is on its way to the other's agent. -/
theorem late_roll_back_undoes_another_claim :
    ∃ c c', RunsTo c [waitingForRoom.1, .done none, .done (some (.started 1 (some "agent-2")))] ∧
      Owns c.memory 2 1 ∧ ¬Owns c.memory 0 1 ∧ c.state.store.Holds otherRow ∧
      RunsTo c' [.done (some (.retry 1 (.ofSecs 5) .sendFailed)), .done none,
        .done (some (.started 1 (some "agent-2")))] ∧
      c'.memory = c.memory ++ [.putBack (some 0) 1] ∧
      c'.state.store.Holds { Task.submitted "ws" .plan 0 .manual with id := 1, retryCount := 1 } := by
  have hlate : RunsTo putBackLate.2 [.done (some (.retry 1 (.ofSecs 5) .sendFailed)), .done none,
      .done (some (.started 1 (some "agent-2")))] := run_hungUp.carry (i := 0) (p := waitingForRoom.1) rfl 50
  have hhold : hold startedByOther.2.memory 1 = some { process := 2, source := .pending, sent := true } := by
    rw [memory_hungUp]
    rfl
  refine ⟨_, _, run_hungUp, ⟨_, hhold, rfl, rfl⟩, ?_, rfl, hlate, memory_putBackLate, rfl⟩
  rintro ⟨a, ha, hown, -⟩
  rw [hhold] at ha
  cases ha
  cases hown

end TaskFleet.Claims
