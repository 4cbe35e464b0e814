/-
  TaskFleet.Proofs.Dispatch.LocalRuns — what is left of a local run once its work is done.

  A local run carries out its task and then fails the task if it is still running. It knows the
  task by its ID only, not by the claim that it was started for.
  - `Executes`, `Fails`: the two things that a local run does to the store.
  - `local_runs_fail_what_runs`: once a run has changed anything, all it does to the store is to
    fail its task while that is running. If the task was not running, somebody else has started
    it again in between.
  - `finished_plan_fails_the_apply`: the plan of a task fails the apply that was started since.
-/

import TaskFleet.Proofs.Dispatch.Operations
import TaskFleet.Proofs.Store.Scans
import TaskFleet.Proofs.Traces

namespace TaskFleet.LocalRuns

open Dispatch Fallible

variable {cfg : Settings} {start : CommandSpec → Task → AgentAction → ProgramEnd} {t : Task}
  {l l₁ l₂ : List (Step World)} {e : Step World}

/-! ## The steps of a local run -/

/-- The step is one of the local run. -/
def Own (e : Step World) : Prop := e.process = some 0

variable (start t) in
/-- The executor does its work on the task. -/
def Executes (e : Step World) : Prop :=
  ∃ result, e.before.executor.execute start (localAction t) t e.before.now e.before.store = some (result, e.after.store)

/-- The task with this ID is running. -/
def Runs (id : UInt64) (w : World) : Prop := ∃ u, w.store.taskRow id = some (.record u) ∧ u.status = .running

/-- The step fails the task with this ID, which is running. -/
def Fails (id : UInt64) (e : Step World) : Prop :=
  ∃ u message now, e.before.store.taskRow id = some (.record u) ∧ u.status = .running ∧
    e.after.store.taskRow id = some (.record { u with
      status := .failed
      errorMessage := some (u.errorMessage.getD message)
      completedAt := some now
      lease := none }) ∧
    ∀ key, key ≠ taskKey id → e.after.store.tasks.get? key = e.before.store.tasks.get? key

theorem Fails.not_runs {id : UInt64} (h : Fails id e) : ¬Runs id e.after := by
  obtain ⟨u, message, now, -, -, hafter, -⟩ := h
  rintro ⟨v, hv, hruns⟩
  rw [hafter] at hv
  cases hv
  cases hruns

variable (start t) in
/-- If the step of the run does anything to the store, it fails the task, or it is the executor's
    work and the first change that the run makes at all. -/
def FailsOrExecutes (l : List (Step World)) (e : Step World) : Prop :=
  Own e → e.after.store ≠ e.before.store →
    Fails t.id e ∨ (Executes start t e ∧ ∀ e₀ ∈ l, Own e₀ → e₀.after = e₀.before)

/-! ## After the executor's work -/

/-- Nothing happens to the store, or the task, which is running, fails. -/
def Finishes (id : UInt64) (w w' : World) : Prop := w'.store = w.store ∨ Fails id ⟨none, w, w'⟩

theorem finishes_refl (id : UInt64) (w : World) : Finishes id w w := .inl rfl

theorem insert_taskRow {s : Store} {id : UInt64} {u : Task} (h : s.taskRow id = some (.record u)) :
    s.tasks.insert (taskKey id) (.record u) = s.tasks := by
  refine Table.ext_get? fun key => ?_
  rw [Table.get?_insert]
  split
  · next he => exact he ▸ h.symm
  · rfl

theorem finishes_update {id : UInt64} {message : String} {now : UInt64} {w : World} {u' : Task} {s' : Store}
    (h : w.store.updateTask id (Task.failIfRunning message now) = .ok (u', s')) :
    Finishes id w { w with store := s' } := by
  obtain ⟨u, hu, hfail, rfl⟩ := Store.updateTask_ok_iff.1 h
  have hrow := Store.task?_eq_some_iff.1 hu
  by_cases hruns : u.status = .running
  · simp only [Task.failIfRunning, hruns, ne_eq, not_true_eq_false, if_false] at hfail
    obtain ⟨-, rfl⟩ := Store.conclude_ok_iff.1 hfail
    refine .inr ⟨u, message, now, hrow, hruns, Table.get?_insert_self _ _ _, fun key hkey => ?_⟩
    exact Table.get?_insert_of_ne _ _ (Ne.symm hkey)
  · simp only [Task.failIfRunning, ne_eq, hruns, not_false_eq_true, if_true] at hfail
    cases hfail
    refine .inl ?_
    show ({ w.store with tasks := w.store.tasks.insert (taskKey id) (.record u') } : Store) = w.store
    rw [insert_taskRow hrow]

theorem finishes_failIfStillRunning (id : UInt64) (failure : Option String) :
    (failIfStillRunning id failure).run.Steps (Finishes id) := by
  refine steps_bind (.map _ (Program.steps_get (finishes_refl id) _)) fun found => ?_
  cases found with
  | none => trivial
  | some current =>
    simp only
    split
    · refine steps_bind (steps_always (Program.steps_get (finishes_refl id) _)) fun now => ?_
      exact steps_bind (.map _ (Program.steps_transact (finishes_refl id) fun _ _ _ => finishes_update)) fun _ => trivial
    · trivial

/-- What went wrong with the executor's work, which may have taken too long. -/
def failureOf (cfg : Settings) : Option (Except LocalError Unit) → Program World (Option String)
  | some (.ok ()) => pure none
  | some (.error e) => pure (some e.message)
  | none => do
    Program.sleep cfg.dispatch.localTimeout
    pure (some (timedOut cfg.dispatch.localTimeout))

/-- What a local run does after the executor's work. -/
def finish (cfg : Settings) (t : Task) (result : Option (Except LocalError Unit)) : Program World Unit := do
  let failure ← failureOf cfg result
  ignoring (failIfStillRunning t.id failure)
  ignoring (onTaskCompleted t.id)

variable (start t) in
/-- The executor's work as one step of the world. -/
def work (w : World) : Option (Except LocalError Unit) × World :=
  match w.executor.execute start (localAction t) t w.now w.store with
  | some (result, store) => (some result, { w with store })
  | none => (none, w)

theorem executes_work {w : World} (h : (work start t w).2.store ≠ w.store) :
    Executes start t ⟨some 0, w, (work start t w).2⟩ := by
  unfold work at h ⊢
  unfold Executes
  cases hwork : w.executor.execute start (localAction t) t w.now w.store with
  | some r => exact ⟨r.1, rfl⟩
  | none =>
    rw [hwork] at h
    exact absurd rfl h

theorem runLocal_eq (cfg : Settings) (start : CommandSpec → Task → AgentAction → ProgramEnd) (t : Task) :
    runLocal cfg start t = Program.apply (work start t) >>= finish cfg t := by
  have hcarry : carryOut cfg start t = Program.apply (work start t) >>= failureOf cfg := by
    refine congrArg (Program.apply (work start t) >>= ·) (funext fun result => ?_)
    match result with
    | some (.ok ()) => rfl
    | some (.error e) => rfl
    | none => rfl
  unfold runLocal finish
  rw [hcarry, bind_assoc]

/-- What follows when the work of a task is over leaves the store alone. -/
theorem steps_onTaskCompleted (id : UInt64) : (onTaskCompleted id).run.Steps fun w w' => w'.store = w.store := by
  have hedit : ∀ edit, (ignoring (Capacity.editSlotOf id edit)).Steps fun w w' => w'.store = w.store := fun edit =>
    steps_ignoring (Capacity.steps_editSlotOf (fun _ => rfl) fun _ => Program.steps_apply fun w => by dsimp only; split <;> rfl)
  have hread : ∀ f : World → Except StoreError (Option Task), (Program.get f).Steps fun w w' => w'.store = w.store :=
    Program.steps_get fun _ => rfl
  refine steps_bind (.map _ (hread _)) fun found => ?_
  cases found with
  | none => trivial
  | some t =>
    simp only
    split
    · exact steps_always (hedit _)
    · split
      · refine steps_bind (steps_always (hedit _)) fun _ => ?_
        refine steps_bind (steps_always (Program.steps_modify fun w => ?_)) fun _ => ?_
        · rw [World.spawn_hooks]
        · exact steps_always (Program.steps_modify fun _ => rfl)
      · trivial

theorem finishes_finish (cfg : Settings) (t : Task) (result : Option (Except LocalError Unit)) :
    (finish cfg t result).Steps (Finishes t.id) := by
  refine .bind ?_ fun failure => ?_
  · match result with
    | some (.ok ()) => trivial
    | some (.error e) => trivial
    | none => exact .bind (.bind (Program.steps_apply fun _ => .inl rfl) fun _ => trivial) fun _ => trivial
  · refine .bind (steps_ignoring (finishes_failIfStillRunning t.id failure)) fun _ => steps_ignoring ?_
    exact (steps_onTaskCompleted t.id).mono fun _ _ h => .inl h

/-! ## The discipline -/

variable {w : World} {c d : Scene World (List (Step World))} {crew : List (Program World Unit)}

variable (start t) in
/-- What a local run keeps to. -/
def watching (w : World) : Discipline World (List (Step World)) :=
  .accounting w (fun _ => True) (FailsOrExecutes start t) (fun i e => e.process = some i → e.after = e.before)
    (fun _ _ _ _ hwrote => absurd rfl hwrote) fun _ _ _ _ => rfl

/-- Whatever others do. -/
inductive OutsideRun (c : Scene World (List (Step World))) : Scene World (List (Step World)) → Prop
  | surroundings (w : World) : OutsideRun c ⟨w, c.memory ++ [⟨none, c.state, w⟩]⟩

variable (cfg start t) in
/-- The local run comes first. -/
inductive BeginsRun (c : Scene World (List (Step World))) :
    Nat → Program World Unit → Scene World (List (Step World)) → Prop
  | runLocal : c.memory = [] → BeginsRun c 0 (runLocal cfg start t) c

/-- The run has changed nothing so far. -/
def Untouched (c : Scene World (List (Step World))) : Prop := ∀ e ∈ c.memory, Own e → e.after = e.before

theorem stable_untouched : (watching start t w).Stable 0 Untouched := by
  rintro c d h ⟨l, hl, -, hfair⟩ e he
  rw [hl] at he
  rcases List.mem_append.1 he with he | he
  · exact h e he
  · exact hfair e he

/-- A step of the run that does to the store what it may. -/
theorem keeps_step {w' : World} (hi : (watching start t w).Inv c)
    (hwrote : w'.store ≠ c.state.store → Fails t.id ⟨some 0, c.state, w'⟩ ∨
      (Executes start t ⟨some 0, c.state, w'⟩ ∧ Untouched c)) :
    (watching start t w).Keeps 0 c ⟨w', c.memory ++ [⟨some 0, c.state, w'⟩]⟩ :=
  Discipline.keeps_accounting hi trivial (fun _ => hwrote) fun _ hj hj' => absurd (Option.some.inj hj') hj.symm

theorem leads_runLocal (h : Untouched c) :
    (watching start t w).Leads 0 (runLocal cfg start t) (fun _ _ => True) c := by
  have htrue : (watching start t w).Stable 0 fun _ => True := fun _ _ _ _ => trivial
  rw [runLocal_eq]
  refine Discipline.Leads.bind (R := fun _ _ => True)
    (Discipline.leads_apply stable_untouched (fun _ => htrue) (fun c hi h => ?_) h) fun result c _ => ?_
  · exact ⟨keeps_step hi fun hwrote => .inr ⟨executes_work hwrote, h⟩, trivial⟩
  · refine Discipline.Ensures.mono (Discipline.Ensures.of_steps (F := fun _ => True) (finishes_finish cfg t result)
      (fun _ _ _ _ => trivial) (fun c act hi _ hstep => ?_) trivial) fun _ _ _ _ _ _ => trivial
    refine ⟨keeps_step hi fun hwrote => .inl ?_, trivial⟩
    exact hstep.resolve_left hwrote

theorem keeping (cfg : Settings) (start : CommandSpec → Task → AgentAction → ProgramEnd) (t : Task) (w : World) :
    (watching start t w).Keeping OutsideRun (BeginsRun cfg start t) ⟨w, []⟩ fun _ _ _ => True where
  first := Discipline.accounted_first trivial
  outside c d hc h := by
    obtain ⟨w'⟩ := h
    exact ⟨hc.step trivial nofun, fun j => Discipline.rely_accounting nofun⟩
  begins c i p d hc h := by
    obtain ⟨hnone⟩ := h
    have huntouched : Untouched c := fun e he => by
      rw [hnone] at he
      cases he
    refine ⟨⟨hc, fun j _ => Discipline.rely_refl _ j c⟩, ?_⟩
    exact Discipline.Ensures.mono (leads_runLocal huntouched) fun _ _ _ _ => trivial

/-- Beside whatever others do, a local run writes to the store only to do its work, before it has
    changed anything else, or to fail its task while that is running. If the task was not running
    after some change that the run made, and the run fails it later, then somebody else has started
    it in between. -/
theorem local_runs_fail_what_runs (hrun : (watching start t w).Run OutsideRun (BeginsRun cfg start t) ⟨w, []⟩ c crew) :
    Throughout (FailsOrExecutes start t) c.memory ∧
      ∀ l₀ e₀ l₁ e l₂, c.memory = l₀ ++ e₀ :: (l₁ ++ e :: l₂) → Own e₀ → e₀.after ≠ e₀.before → Own e →
        e.after.store ≠ e.before.store →
        Fails t.id e ∧ (Runs t.id e₀.after ∨ ∃ e' ∈ l₁, ¬Own e' ∧ ¬Runs t.id e'.before ∧ Runs t.id e'.after) := by
  obtain ⟨hchain, -, hsound⟩ := (hrun.sound (keeping cfg start t w)).1
  -- after its first change, the run only fails its task
  have hlater : ∀ l₀ e₀ l₁ e l₂, c.memory = l₀ ++ e₀ :: (l₁ ++ e :: l₂) → Own e₀ → e₀.after ≠ e₀.before → Own e →
      e.after.store ≠ e.before.store → Fails t.id e := by
    intro l₀ e₀ l₁ e l₂ hcut hown₀ hchanged hown hwrote
    rcases hsound (l₀ ++ e₀ :: l₁) e l₂ (by simp [hcut]) hown hwrote with hfails | ⟨-, hfirst⟩
    · exact hfails
    · exact absurd (hfirst e₀ (by simp) hown₀) hchanged
  refine ⟨hsound, fun l₀ e₀ l₁ e l₂ hcut hown₀ hchanged hown hwrote => ?_⟩
  have hfails := hlater l₀ e₀ l₁ e l₂ hcut hown₀ hchanged hown hwrote
  refine ⟨hfails, Classical.or_iff_not_imp_left.2 fun hstopped => ?_⟩
  obtain ⟨u, message, now, hrow, hruns, -⟩ := hfails
  have hbetween : Chain e₀.after l₁ e.before := (hcut ▸ hchain).split.2.split.1
  obtain ⟨m₁, e', m₂, rfl, hbefore, hafter, -⟩ :=
    hbetween.lost (P := fun w => ¬Runs t.id w) hstopped fun h => h ⟨u, hrow, hruns⟩
  refine ⟨e', by simp, fun hown' => ?_, hbefore, Classical.byContradiction hafter⟩
  -- the run itself starts nothing
  by_cases hwrote' : e'.after.store = e'.before.store
  · refine hafter fun h => hbefore ?_
    unfold Runs at h ⊢
    rwa [hwrote'] at h
  · exact hafter (hlater l₀ e₀ m₁ e' (m₂ ++ e :: l₂) (by simp [hcut]) hown₀ hchanged hown' hwrote').not_runs

/-! ## A run -/

/-- An exclusive task that is to be planned on this machine, by a command. -/
def oneLocalTask : World where
  store :=
    ((({} : Store).putWorkspace { id := "ws", mode := .onHost }).addTask (.submitted "ws" .planAndApply 0 .manual) 1).2
  executor := .commands { plan := some { program := "plan" }, apply := some { program := "apply" } }
  clock := 0

/-- An attempt has claimed the task and asked for its plan. -/
def planAsked : World := ((tryDispatch { holder := "a" } 1 "ws").run.run oneLocalTask).2

/-- Every command succeeds. -/
def succeeds : CommandSpec → Task → AgentAction → ProgramEnd := fun _ _ _ => .ended (.code 0) []

def planTask : Task :=
  { Task.submitted "ws" .planAndApply 0 .manual with
    id := 1
    status := .running
    stage := some .planning
    lease := some { holder := "a", lockedAt := 0, expiresAt := 60 }
    startedAt := some 0 }

def planning : Program World Unit := runLocal { holder := "a" } succeeds planTask

abbrev RunsTo : Scene World (List (Step World)) → List (Program World Unit) → Prop :=
  (watching succeeds planTask planAsked).Run OutsideRun (BeginsRun { holder := "a" } succeeds planTask) ⟨planAsked, []⟩

/-- The plan is done, and its task waits for its apply. -/
def planDone : Program World Unit × Scene World (List (Step World)) :=
  (watching succeeds planTask planAsked).carry 0 1 planning ⟨planAsked, []⟩

/-- An operator has confirmed the apply. -/
def confirmed : World :=
  { planDone.2.state with store := ((planDone.2.state.store.confirmApply 1 "alice" 0).map (·.2)).toOption.getD {} }

/-- The apply is claimed and asked for. -/
def applyAsked : World := ((executeConfirmedApply { holder := "a" } 2 "ws" 1).run.run confirmed).2

/-- The memory of all that. -/
def untilApply : List (Step World) :=
  planDone.2.memory ++ [⟨none, planDone.2.state, confirmed⟩] ++ [⟨none, confirmed, applyAsked⟩]

/-- Only now does the local run of the plan go on. -/
def planFinished : Program World Unit × Scene World (List (Step World)) :=
  (watching succeeds planTask planAsked).carry 0 20 planDone.1 ⟨applyAsked, untilApply⟩

def applyTask : Task :=
  { planTask with stage := some .applying, lease := none, confirmedBy := some "alice", confirmedAt := some 0 }

theorem run_planFinished : RunsTo ⟨applyAsked, untilApply⟩ [planDone.1] ∧ RunsTo planFinished.2 [planFinished.1] := by
  have hstart : RunsTo ⟨planAsked, []⟩ [] := .start
  have hbegun := hstart.begins (.runLocal rfl)
  have hdone := hbegun.carry (i := 0) (p := planning) rfl 1
  have hasked : RunsTo ⟨applyAsked, untilApply⟩ [planDone.1] :=
    (hdone.outside (.surroundings confirmed)).outside (.surroundings applyAsked)
  exact ⟨hasked, hasked.carry (i := 0) (p := planDone.1) rfl 20⟩

/-- The row of the task after the plan, and after the local run of the plan has ended. -/
def waiting : Task := { planTask with status := .applyPending, stage := some .applyPending, lease := none }

def failed : Task :=
  { applyTask with status := .failed, errorMessage := some noFinalStatus, completedAt := some 0 }

theorem row_planDone : planDone.2.state.store.taskRow 1 = some (.record waiting) := by rfl

theorem row_planFinished : planFinished.2.state.store.taskRow 1 = some (.record failed) := by rfl

/-- What the local run of the plan does to the store in the end. -/
def lastWrite : Step World :=
  ⟨some 0, applyAsked, { applyAsked with store := planFinished.2.state.store }⟩

theorem local_runs_fail_what_runs_plan_overtaken :
    RunsTo planFinished.2 [planFinished.1] ∧ Fails 1 lastWrite ∧
      ∃ e ∈ untilApply, ¬Own e ∧ ¬Runs 1 e.before ∧ Runs 1 e.after := by
  obtain ⟨hasked, hended⟩ := run_planFinished
  have hchanged : planDone.2.state ≠ planAsked := fun h => by
    have hrow : planAsked.store.taskRow 1 = some (.record { planTask with lease := none }) := by rfl
    rw [← h, row_planDone] at hrow
    cases hrow
  have hwrote : lastWrite.after.store ≠ lastWrite.before.store := fun h => by
    have hrow : lastWrite.before.store.taskRow 1 = some (.record applyTask) := by rfl
    rw [← h, show lastWrite.after.store.taskRow 1 = _ from row_planFinished] at hrow
    cases hrow
  have hcut : planFinished.2.memory = [] ++ ⟨some 0, planAsked, planDone.2.state⟩ ::
      ([⟨none, planDone.2.state, confirmed⟩, ⟨none, confirmed, applyAsked⟩, ⟨some 0, applyAsked, applyAsked⟩,
        ⟨some 0, applyAsked, applyAsked⟩] ++ lastWrite :: planFinished.2.memory.drop 6) := by rfl
  obtain ⟨hfails, hbetween⟩ := (local_runs_fail_what_runs hended).2 _ _ _ _ _ hcut rfl hchanged rfl hwrote
  have hstopped : ¬Runs 1 planDone.2.state := by
    rintro ⟨u, hu, hruns⟩
    rw [row_planDone] at hu
    cases hu
    cases hruns
  obtain ⟨e, he, hother, hstarted⟩ := hbetween.resolve_left hstopped
  refine ⟨hended, hfails, e, ?_, hother, hstarted⟩
  simp only [List.mem_cons, List.not_mem_nil, or_false] at he
  rcases he with rfl | rfl | rfl | rfl
  · simp [untilApply]
  · simp [untilApply]
  · exact absurd rfl hother
  · exact absurd rfl hother

/-- The plan of a task leaves it waiting for its apply. The apply is confirmed, claimed and asked
    for before the local run of the plan goes on, which then fails the task that runs. -/
theorem finished_plan_fails_the_apply :
    (tryDispatch { holder := "a" } 1 "ws").run.run oneLocalTask = (.finished (.ok (.started 1 none)), planAsked) ∧
      planAsked.spawned = [.runLocal planTask] ∧
      planDone.2.state.store.taskRow 1 = some (.record waiting) ∧
      planDone.2.state.store.confirmApply 1 "alice" 0 =
        .ok ({ waiting with confirmedBy := some "alice", confirmedAt := some 0 }, confirmed.store) ∧
      (executeConfirmedApply { holder := "a" } 2 "ws" 1).run.run confirmed =
        (.finished (.ok (.started 1 none)), applyAsked) ∧
      RunsTo ⟨applyAsked, untilApply⟩ [planDone.1] ∧ applyAsked.store.taskRow 1 = some (.record applyTask) ∧
      RunsTo planFinished.2 [.done ()] ∧ planFinished.2.state.store.taskRow 1 = some (.record failed) :=
  ⟨rfl, rfl, row_planDone, rfl, rfl, run_planFinished.1, rfl, run_planFinished.2, row_planFinished⟩

end TaskFleet.LocalRuns
