/-
  TaskFleet.Proofs.Dispatch.Writes — every step of an orchestrator, by what it does to the rows.

  Completions, sweeps, start-ups and work on this machine are tidy: they change rows mildly,
  send nothing and ask for no work on this machine. An attempt claims, sends and asks for work
  besides. No job writes to the task table in any other way.
  - `Tidy`: the tidy steps; `tidy_sweep`, `tidy_recover`, `tidy_onTaskCompleted`, `tidy_runLocal`.
  - `starts_tryDispatch`, `starts_executeConfirmedApply`: attempts, which leave cluster and clock
    alone too.
  - `writes_turn`: one turn of any job of an orchestrator.
-/

import TaskFleet.Orchestrator
import TaskFleet.Proofs.Autoscale.Composition
import TaskFleet.Proofs.Dispatch.AttemptSteps
import TaskFleet.Proofs.Store.TaskWrites

namespace TaskFleet.Dispatch

open Fallible Store

variable {cfg : Settings} {t : Task} {w w' : World} {α ε : Type}

/-! ## Tidy steps -/

/-- Rows change as in one transaction; nothing is sent, no work on this machine is asked for,
    and the surroundings stay as they are. -/
structure Tidy (w w' : World) : Prop where
  rows : TaskWrite w.store w'.store
  registry : w'.registry = w.registry
  jobs : ∀ t, .runLocal t ∈ w'.spawned → .runLocal t ∈ w.spawned
  surroundings : SameSurroundings w w'

theorem tidy_refl (w : World) : Tidy w w := ⟨.refl _, rfl, fun _ h => h, rfl, rfl⟩

theorem Aside.tidy (h : Aside w w') : Tidy w w' :=
  ⟨.untouched h.rows, h.registry, fun t ht => by rwa [h.spawned] at ht, h.surroundings⟩

theorem tidy_store {s : Store} (h : TaskWrite w.store s) : Tidy w { w with store := s } := ⟨h, rfl, fun _ h => h, rfl, rfl⟩

theorem tidy_aside {p : Program World α} (hp : p.Steps Aside) : p.Steps Tidy := hp.mono fun _ _ h => h.tidy

theorem tidy_transact {f : Store → Except StoreError (α × Store)}
    (hf : ∀ s a s', f s = .ok (a, s') → TaskWrite s s') : (Program.transact f).Steps Tidy := by
  refine Program.steps_apply fun w => ?_
  cases hr : f w.store with
  | ok r => exact tidy_store (hf _ r.1 r.2 hr)
  | error e => exact tidy_refl w

theorem tidy_tryUpdate {id : UInt64} {change : Task → Except StoreError Task}
    (hchange : ∀ t t', change t = .ok t' → t.Mild t') : (tryUpdate id change).Steps Tidy :=
  .bind (tidy_transact fun _ _ _ h => .change id change hchange h) fun _ => trivial

theorem tidy_claim (seen : Task) (agent : Option String) : (claim cfg seen agent).Steps Tidy := by
  refine .bind (tidy_aside (steps_read _)) fun now => .bind (Program.steps_claimTask ?_) fun _ => trivial
  refine tidy_transact fun s a s' h => .claim _ _ _ (fun t => ?_) h
  exact ⟨rfl, rfl, rfl⟩

theorem tidy_settle (id : UInt64) : (settle cfg id).Steps Tidy :=
  tidy_tryUpdate fun t t' h => by cases h; exact Task.mild_settle cfg.holder t

theorem tidy_rollBack (seen : Task) : (rollBack seen).Steps Tidy := tidy_tryUpdate fun _ _ h => Task.mild_rollBack h

theorem tidy_retryWithBackoff (seen : Task) (reason : RetryReason) : (retryWithBackoff cfg seen reason).Steps Tidy := by
  refine .bind (tidy_tryUpdate fun t t' h => ?_) fun _ => tidy_aside (steps_retryAfter _ _ _)
  cases h
  exact Task.mild_countRetry t

/-! ## Completions -/

theorem tidy_fireHooks (hooks : List Hook) (id : UInt64) :
    (Program.modify fun w : World => hooks.foldl (fun w hook => w.spawn (.fireHook hook id)) w).Steps Tidy := by
  refine Program.steps_modify fun w => ?_
  rw [World.spawn_hooks]
  refine ⟨.refl _, rfl, fun u hu => ?_, rfl, rfl⟩
  rcases List.mem_append.1 hu with hu | hu
  · exact hu
  · obtain ⟨hook, -, hjob⟩ := List.mem_map.1 hu
    cases hjob

/-- The slot of a task is found and changed. -/
theorem tidy_editSlotOf (task : UInt64) (f : Placement → Capacity → UInt64 → Except CapacityError Capacity) :
    (ignoring (Capacity.editSlotOf task f)).Steps Tidy :=
  steps_ignoring (Capacity.steps_editSlotOf tidy_refl fun _ => tidy_aside (steps_onCapacity _))

theorem tidy_onTaskCompleted (id : UInt64) : (onTaskCompleted id).run.Steps Tidy := by
  refine steps_bind (.map _ (tidy_aside (steps_read _))) fun found => ?_
  cases found with
  | none => trivial
  | some t =>
    simp only
    split
    · exact steps_always (tidy_editSlotOf _ _)
    · split
      · refine steps_bind (steps_always (tidy_editSlotOf _ _)) fun _ => ?_
        refine steps_bind (steps_always (tidy_fireHooks _ _)) fun _ => ?_
        exact steps_always (Program.steps_modify fun _ => ⟨.refl _, rfl, fun _ h => h, rfl, rfl⟩)
      · trivial

/-! ## Sweeps and start-ups -/

variable {p : StoreProgram α}

theorem writes_update {id : UInt64} {change : Task → Except StoreError Task}
    (hchange : ∀ t t', change t = .ok t' → t.Mild t') :
    (StoreProgram.transaction (·.updateTask id change)).run.Steps TaskWrite := by
  refine Program.steps_apply fun s => ?_
  simp only
  cases hr : s.updateTask id change with
  | error e => exact .refl s
  | ok r => exact .change id change hchange hr

theorem writes_read (f : Store → Except StoreError α) : (StoreProgram.read f).run.Steps TaskWrite :=
  Program.steps_get .refl f

theorem writes_reclaimEach (ts : List Task) : (StoreProgram.reclaimEach ts).run.Steps TaskWrite := by
  induction ts with
  | nil => trivial
  | cons t ts ih => exact .bind_run (writes_update fun _ _ h => Task.mild_giveBack h) fun _ => .bind_run ih fun _ => trivial

theorem writes_cleanEach (now : UInt64) (ts : List Task) : (StoreProgram.cleanEach now ts).run.Steps TaskWrite := by
  induction ts with
  | nil => trivial
  | cons t ts ih =>
    unfold StoreProgram.cleanEach
    split
    · exact ih
    · split
      · exact .bind_run (writes_update fun _ _ h => Task.mild_restore h) fun _ => .bind_run ih fun _ => trivial
      · exact .bind_run (writes_update fun _ _ h => Task.mild_failInterrupted h) fun _ => .bind_run ih fun _ => trivial

theorem writes_cancelEach (now : UInt64) (ts : List Task) : (StoreProgram.cancelEach now ts).run.Steps TaskWrite := by
  induction ts with
  | nil => trivial
  | cons t ts ih =>
    exact .bind_run (writes_update fun _ _ h => Task.mild_cancelTriggered h) fun _ => .bind_run ih fun _ => trivial

theorem tidy_onStore (hp : p.run.Steps TaskWrite) : (Recovery.onStore p).run.Steps Tidy :=
  Recovery.steps_onStore (fun _ _ h => tidy_store h) hp

theorem tidy_trigger (workspaces : List String) : (Recovery.trigger workspaces).Steps Tidy :=
  .forEach (fun _ => Program.steps_modify fun _ => ⟨.refl _, rfl, fun _ h => h, rfl, rfl⟩) workspaces

theorem tidy_sweep (now : UInt64) : (Recovery.sweep now).run.Steps Tidy :=
  Recovery.steps_sweep .refl (fun _ _ h => tidy_store h) (fun _ _ => ⟨.refl _, rfl, fun _ h => h, rfl, rfl⟩) now writes_reclaimEach

theorem tidy_recover : Recovery.recover.run.Steps Tidy := by
  refine steps_bind (steps_always (tidy_aside (steps_read _))) fun now => ?_
  refine steps_bind (tidy_onStore (.bind_run (writes_read _) (writes_cleanEach now))) fun cleaned => ?_
  refine steps_bind (tidy_onStore (.bind_run (writes_read _) fun _ => writes_cancelEach now _)) fun cancelled => ?_
  refine steps_bind (tidy_onStore (writes_read _)) fun pending => ?_
  refine steps_bind (tidy_onStore (writes_read _)) fun parked => ?_
  exact steps_bind (steps_always (tidy_trigger _)) fun _ => trivial

/-! ## Work on this machine -/

theorem tidy_carryOut (start : CommandSpec → Task → AgentAction → ProgramEnd) : (carryOut cfg start t).Steps Tidy := by
  refine .bind (Program.steps_apply fun w => ?_) fun result => ?_
  · cases hr : w.executor.execute start (localAction t) t w.now w.store with
    | none => exact tidy_refl w
    | some r => exact tidy_store (oneChange_execute hr).taskWrite
  · match result with
    | some (.ok ()) => exact Program.steps_pure _
    | some (.error e) => exact Program.steps_pure _
    | none =>
      refine .bind (.bind (Program.steps_apply fun w => ?_) fun _ => Program.steps_waitFor _) fun _ => Program.steps_pure _
      exact ⟨.refl _, rfl, fun _ h => h, rfl, rfl⟩

theorem tidy_failIfStillRunning (id : UInt64) (failure : Option String) :
    (failIfStillRunning id failure).run.Steps Tidy := by
  refine steps_bind (.map _ (tidy_aside (steps_read _))) fun found => ?_
  cases found with
  | none => exact Program.steps_pure _
  | some current =>
    simp only
    split
    · refine steps_bind (steps_always (tidy_aside (steps_read _))) fun now => ?_
      refine steps_bind (.map _ (tidy_transact fun s a s' h => ?_)) fun _ => Program.steps_pure _
      exact .change _ _ (fun _ _ hc => Task.mild_failIfRunning hc) h
    · exact Program.steps_pure _

theorem tidy_runLocal (start : CommandSpec → Task → AgentAction → ProgramEnd) : (runLocal cfg start t).Steps Tidy :=
  .bind (tidy_carryOut start) fun _ => .bind (steps_ignoring (tidy_failIfStillRunning _ _)) fun _ =>
    steps_ignoring (tidy_onTaskCompleted _)

/-! ## Attempts -/

/-- Rows change as in one transaction, and the surroundings stay as they are. -/
structure Starts (w w' : World) : Prop where
  rows : TaskWrite w.store w'.store
  surroundings : SameSurroundings w w'

theorem starts_tidy {p : Program World α} (hp : p.Steps Tidy) : p.Steps Starts := hp.mono fun _ _ h => ⟨h.rows, h.surroundings⟩

theorem starts_of_rows (h : w'.store.tasks = w.store.tasks) (hs : SameSurroundings w w') : Starts w w' := ⟨.untouched h, hs⟩

theorem covers_starts (process : Nat) (t : Task) : Covers Starts cfg process t where
  pods := fun _ _ => starts_of_rows rfl ⟨rfl, rfl⟩
  claim := fun _ => starts_tidy (tidy_claim t _)
  settle := starts_tidy (tidy_settle _)
  rollBack := starts_tidy (tidy_rollBack t)
  countRetry := starts_tidy (tidy_tryUpdate fun t t' h => by cases h; exact Task.mild_countRetry t)
  schedule := fun _ _ => starts_of_rows rfl ⟨rfl, rfl⟩
  spawn := fun _ _ => starts_of_rows rfl ⟨rfl, rfl⟩
  send := Agent.steps_sendTask (fun _ _ => starts_of_rows rfl ⟨rfl, rfl⟩) process

theorem coversLock_starts (process : Nat) (workspace : String) : CoversLock Starts process workspace where
  refl := fun _ => starts_of_rows rfl ⟨rfl, rfl⟩
  request := fun _ => starts_of_rows rfl ⟨rfl, rfl⟩
  release := fun _ => starts_of_rows rfl ⟨rfl, rfl⟩
  schedule := fun _ _ => starts_of_rows rfl ⟨rfl, rfl⟩

theorem starts_dispatchTask (process : Nat) (t : Task) : (dispatchTask cfg process t).run.Steps Starts :=
  (covers_starts process t).dispatchTask

theorem starts_tryDispatch (process : Nat) (workspace : String) : (tryDispatch cfg process workspace).run.Steps Starts :=
  (coversLock_starts process workspace).tryDispatch (starts_dispatchTask process)

theorem starts_executeConfirmedApply (process : Nat) (workspace : String) (task : UInt64) :
    (executeConfirmedApply cfg process workspace task).run.Steps Starts :=
  (coversLock_starts process workspace).executeConfirmedApply (starts_dispatchTask process) task

/-! ## Writes -/

/-- Rows change as in one transaction. -/
def Writes (w w' : World) : Prop := TaskWrite w.store w'.store

theorem writes_of_store (h : w'.store.tasks = w.store.tasks) : Writes w w' := .untouched h

theorem writes_tidy {p : Program World α} (hp : p.Steps Tidy) : p.Steps Writes := hp.mono fun _ _ h => h.rows

theorem writes_aside {p : Program World α} (hp : p.Steps Aside) : p.Steps Writes := hp.mono fun _ _ h => .untouched h.rows

theorem writes_sameStore {p : Program World α} (hp : p.Steps SameStore) : p.Steps Writes :=
  hp.mono fun _ _ h => writes_of_store (congrArg Store.tasks h)

theorem writes_tryDispatch (process : Nat) (workspace : String) : (tryDispatch cfg process workspace).run.Steps Writes :=
  (starts_tryDispatch process workspace).mono fun _ _ h => h.rows

theorem writes_executeConfirmedApply (process : Nat) (workspace : String) (task : UInt64) :
    (executeConfirmedApply cfg process workspace task).run.Steps Writes :=
  (starts_executeConfirmedApply process workspace task).mono fun _ _ h => h.rows

end TaskFleet.Dispatch

/-! ## Jobs -/

namespace TaskFleet

open Fallible Store Dispatch

variable {cfg : Settings}

namespace Autoscale

theorem scales_writes : Scales cfg fun _ p => p.Steps Writes :=
  scales_steps (Capacity.maintains_sameStore.mono fun _ _ h => writes_of_store (congrArg Store.tasks h))
    (fun _ _ => .refl _) fun _ _ => .refl _

theorem writes_ensurePods (id : String) : (ensurePods cfg id).run.Steps Writes :=
  scales_writes.ensurePods (fun pool => writes_sameStore (Capacity.steps_reconcile Capacity.maintains_sameStore pool)) id

theorem writes_cycle : (cycle cfg).run.Steps Writes :=
  scales_writes.cycle fun pool => writes_sameStore (Capacity.steps_reconcile Capacity.maintains_sameStore pool)

end Autoscale

namespace Service

theorem writes_driverTurn (shift : Nat) : (driverTurn shift).Steps Writes := by
  refine .bind (Program.steps_apply fun _ => writes_of_store rfl) fun due => ?_
  refine .bind (.forEach (fun ws => ?_) due) fun _ => ?_
  · exact .bind (Program.steps_waitFor _) fun _ => Program.steps_modify fun _ => writes_of_store rfl
  · refine .bind (writes_aside (steps_read _)) fun rest => ?_
    refine .bind (Program.steps_apply fun _ => writes_of_store rfl) fun deadline => ?_
    refine .bind (Program.steps_waitFor _) fun _ => Program.steps_apply fun w => writes_of_store ?_
    split <;> rfl

theorem writes_workerTurn (process shift : Nat) : (workerTurn cfg process shift).Steps Writes := by
  refine .bind (.bind (Program.steps_modify fun _ => writes_of_store rfl) fun _ => .bind (Program.steps_waitFor _) fun _ => ?_)
    fun next => ?_
  · exact Program.steps_apply fun _ => writes_of_store rfl
  · cases next with
    | none => exact Program.steps_pure _
    | some workspace => exact .bind (steps_ignoring (writes_tryDispatch process workspace)) fun _ => Program.steps_pure _

theorem writes_leave (shift : Nat) : (leave shift).Steps Writes := Program.steps_modify fun _ => writes_of_store rfl

theorem writes_start (shift : Nat) (job : Job) : (start shift job).Steps Writes :=
  Program.steps_modify fun _ => writes_of_store rfl

theorem writes_startQueue (shift workers : Nat) : (startQueue shift workers).Steps Writes :=
  Program.steps_modify fun _ => writes_of_store rfl

theorem writes_periodicTurn (shift : Nat) (interval : Duration) {p : Program World Unit} (hp : p.Steps Writes) :
    (periodicTurn shift interval p).Steps Writes := by
  refine .bind (Program.steps_apply fun _ => writes_of_store rfl) fun deadline => .bind (Program.steps_waitFor _) fun _ => ?_
  refine .bind (writes_aside (steps_read _)) fun due => ?_
  split
  · exact .bind hp fun _ => Program.steps_pure _
  · exact .bind (writes_leave shift) fun _ => Program.steps_pure _

end Service

namespace Orchestrator

variable (o : Orchestrator)

/-- The configured pools and workspaces are no tasks. -/
theorem writes_seed : o.seed.Steps Writes := by
  refine Program.steps_modify fun w => writes_of_store ?_
  have hpools : ∀ (pools : List AgentPool) (s : Store), (pools.foldl (·.putPool ·) s).tasks = s.tasks := by
    intro pools
    induction pools with
    | nil => intro s; rfl
    | cons p rest ih => intro s; exact ih (s.putPool p)
  have hworkspaces : ∀ (workspaces : List Workspace) (s : Store), (workspaces.foldl (·.putWorkspace ·) s).tasks = s.tasks := by
    intro workspaces
    induction workspaces with
    | nil => intro s; rfl
    | cons ws rest ih => intro s; exact ih (s.putWorkspace ws)
  exact (hworkspaces _ _).trans (hpools _ _)

theorem writes_startUp (shift : Nat) : (o.startUp shift).Steps Writes := by
  have hpool : ∀ pool : AgentPool, (ignoring (Autoscale.ensurePods o.settings pool.id)).Steps Writes := fun pool =>
    steps_ignoring (Autoscale.writes_ensurePods pool.id)
  have hpools : o.ensurePools.run.Steps Writes :=
    steps_bind (writes_aside (steps_read _)) fun pools => steps_always (.forEach hpool _)
  have hprepare : o.prepare.run.Steps Writes := by
    refine steps_bind (steps_always o.writes_seed) fun _ => ?_
    exact steps_bind (writes_tidy tidy_recover) fun _ => hpools
  refine .bind hprepare fun r => ?_
  cases r with
  | error e => exact Service.writes_leave shift
  | ok u =>
    exact .bind (Service.writes_startQueue shift _) fun _ => .bind (Service.writes_start shift _) fun _ =>
      .bind (Service.writes_start shift _) fun _ => Service.writes_leave shift

theorem writes_turn (process : Nat) (job : Job) : (o.turn process job).Steps Writes := by
  cases job with
  | runLocal t => exact .bind (writes_tidy (tidy_runLocal _)) fun _ => Program.steps_pure _
  | fireHook hook task => exact .bind (Program.steps_modify fun _ => writes_of_store rfl) fun _ => Program.steps_pure _
  | ensurePods pool => exact .bind (steps_ignoring (Autoscale.writes_ensurePods pool)) fun _ => Program.steps_pure _
  | dispatch attempt workspace =>
    refine .bind (writes_tryDispatch process workspace).attempt fun result => ?_
    exact .bind (Program.steps_modify fun _ => writes_of_store rfl) fun _ => Program.steps_pure _
  | confirmedApply attempt workspace task =>
    refine .bind (writes_executeConfirmedApply process workspace task).attempt fun result => ?_
    exact .bind (Program.steps_modify fun _ => writes_of_store rfl) fun _ => Program.steps_pure _
  | driveQueue shift => exact Service.writes_driverTurn shift
  | work shift => exact Service.writes_workerTurn process shift
  | sweep shift interval =>
    refine Service.writes_periodicTurn shift interval (.bind (writes_aside (steps_read _)) fun now => ?_)
    exact steps_ignoring (writes_tidy (tidy_sweep now))
  | scale shift interval => exact Service.writes_periodicTurn shift interval (steps_ignoring Autoscale.writes_cycle)
  | startUp shift => exact .bind (o.writes_startUp shift) fun _ => Program.steps_pure _

end Orchestrator

end TaskFleet
