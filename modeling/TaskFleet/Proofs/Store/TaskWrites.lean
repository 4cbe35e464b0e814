/-
  TaskFleet.Proofs.Store.TaskWrites — how one transaction changes the task table.

  A transaction leaves the table alone, changes one row mildly, or is a claim. Only a claim
  starts a task, and it looks at the hold on the task's workspace in the same transaction.
  - `TaskWrite`: the transactions of dispatch, completion, sweep, start-up and local commands.
  - `OneChange`, `oneChange_execute`: an executor changes the row of its task, or nothing.
  - `StartsUnheld`: every task that starts does so while its workspace is not on hold.
  - `startsUnheld_claimTask`, `TaskWrite.startsUnheld`, `startsUnheld_createTask`, …: no
    transaction starts a task of a workspace on hold.
-/

import TaskFleet.Proofs.Store.RowChanges

namespace TaskFleet.Store

variable {s s' : Store} {t t' : Task} {id : UInt64}

/-- What one transaction of a process does to the task table. -/
inductive TaskWrite (s : Store) : Store → Prop
  | untouched {s' : Store} : s'.tasks = s.tasks → TaskWrite s s'
  | change {t' : Task} {s' : Store} (id : UInt64) (change : Task → Except StoreError Task) :
      (∀ t t', change t = .ok t' → t.Mild t') → s.updateTask id change = .ok (t', s') → TaskWrite s s'
  | claim {answer : Claim} {s' : Store} (id : UInt64) (r : ClaimRequest) (edit : Task → Task) :
      (∀ t, (edit t).id = t.id ∧ (edit t).workspace = t.workspace ∧ (edit t).confirmedBy = t.confirmedBy) →
      s.claimTask id r edit = .ok (answer, s') → TaskWrite s s'

theorem TaskWrite.refl (s : Store) : TaskWrite s s := .untouched rfl

/-- At most one row changes, by one mild change. -/
inductive OneChange (id : UInt64) (s : Store) : Store → Prop
  | untouched : OneChange id s s
  | change {t' : Task} {s' : Store} (change : Task → Except StoreError Task) :
      (∀ t t', change t = .ok t' → t.Mild t') → s.updateTask id change = .ok (t', s') → OneChange id s s'

theorem OneChange.taskWrite (h : OneChange id s s') : TaskWrite s s' := by
  cases h with
  | untouched => exact .refl s
  | change change hchange hr => exact .change id change hchange hr

/-! ## Executors -/

/-- A change that fails writes nothing. -/
theorem oneChange_update {change : Task → Except StoreError Task} (hchange : ∀ t t', change t = .ok t' → t.Mild t')
    (s : Store) (id : UInt64) : OneChange id s (Executor.update s id change).2 := by
  unfold Executor.update
  cases hr : s.updateTask id change with
  | error e => exact .untouched
  | ok r => exact .change change hchange hr

theorem oneChange_follow {script : ExecutorScript} {action : AgentAction} {now : UInt64} {result : Except LocalError Unit}
    (h : Executor.follow script action t now s = some (result, s')) : OneChange t.id s s' := by
  have hend : ∀ r : Except LocalError Unit × Store, some r = some (result, s') → OneChange t.id s r.2 → OneChange t.id s s' := by
    intro r hr hw
    cases hr
    exact hw
  cases script with
  | finish => exact hend _ h (oneChange_update (fun _ _ h => Task.mild_concludeSuccess h) s t.id)
  | leaveRunning => exact hend _ h .untouched
  | breakDown => exact hend _ h .untouched
  | breakDownWithMessage =>
    have hmessage : ∀ t t' : Task, Except.ok { t with errorMessage := some "partial output" } = Except.ok (ε := StoreError) t' →
        t.Mild t' := by
      intro t t' h
      cases h
      have htame : t.Tame { t with errorMessage := some "partial output" } := .of_same_status rfl rfl rfl rfl rfl
      exact htame.mild (.inl rfl)
    have hw := oneChange_update hmessage s t.id
    unfold Executor.follow at h
    simp only at h
    split at h
    · next s₁ hu =>
      rw [hu] at hw
      exact hend _ h hw
    · exact hend _ h hw
  | failTask => exact hend _ h (oneChange_update (fun _ _ h => Task.mild_concludeFailure h) s t.id)
  | findNoChanges => exact hend _ h (oneChange_update (fun _ _ h => Task.mild_conclude rfl h) s t.id)
  | neverReturn => cases h

theorem oneChange_conclude {action : AgentAction} {spec : CommandSpec} {result : ProgramEnd} {now : UInt64}
    (h : LocalCommand.conclude s id action spec result now = .ok s') : OneChange id s s' := by
  unfold LocalCommand.conclude at h
  cases result with
  | notStarted reason => cases h
  | ended status stderr =>
    have hchange : ∀ t t', (if status = .code 0 then LocalCommand.concludeSuccess action now
        else LocalCommand.concludeFailure (LocalCommand.failureMessage spec.program status stderr) now) t = .ok t' →
        t.Mild t' := by
      intro t t' hc
      split at hc
      · exact Task.mild_concludeSuccess hc
      · exact Task.mild_concludeFailure hc
    simp only at h
    cases hr : s.updateTask id (if status = .code 0 then LocalCommand.concludeSuccess action now
        else LocalCommand.concludeFailure (LocalCommand.failureMessage spec.program status stderr) now) with
    | error e => rw [hr] at h; cases h
    | ok r =>
      rw [hr] at h
      cases h
      exact .change _ hchange hr

/-- Whatever an executor does, it is one change of the row of its task. -/
theorem oneChange_execute {e : Executor} {start : CommandSpec → Task → AgentAction → ProgramEnd} {action : AgentAction}
    {now : UInt64} {result : Except LocalError Unit} (h : e.execute start action t now s = some (result, s')) :
    OneChange t.id s s' := by
  cases e with
  | scripted script => exact oneChange_follow h
  | commands commands =>
    unfold Executor.execute LocalCommand.execute at h
    simp only at h
    cases hspec : LocalCommand.specFor commands action with
    | none => rw [hspec] at h; cases h; exact .untouched
    | some spec =>
      rw [hspec] at h
      simp only at h
      cases hr : LocalCommand.conclude s t.id action spec (start spec t action) now with
      | error e => rw [hr] at h; cases h; exact .untouched
      | ok s₁ => rw [hr] at h; cases h; exact oneChange_conclude hr

/-! ## Holds -/

/-- Every row that runs after the transaction ran before, or its workspace was there and not
    on hold, and the transaction left that as it is. -/
def StartsUnheld (s s' : Store) : Prop :=
  ∀ k t', s'.tasks.get? k = some (.record t') → t'.status = .running →
    (∃ t, s.tasks.get? k = some (.record t) ∧ t.status = .running) ∨
      ∃ w, s.workspace? t'.workspace = .ok (some w) ∧ w.isLocked = false ∧ s'.workspaces = s.workspaces

theorem startsUnheld_of_tasks (h : s'.tasks = s.tasks) : StartsUnheld s s' := by
  intro k t' ht' hr
  rw [h] at ht'
  exact .inl ⟨t', ht', hr⟩

/-- A transaction that writes one row is judged by that row. -/
theorem startsUnheld_insert (hrow : t'.status = .running → (∃ t, s.tasks.get? (taskKey id) = some (.record t) ∧ t.status = .running) ∨
      ∃ w, s.workspace? t'.workspace = .ok (some w) ∧ w.isLocked = false) :
    StartsUnheld s { s with tasks := s.tasks.insert (taskKey id) (.record t') } := by
  intro k u hu hr
  rw [Table.get?_insert] at hu
  split at hu
  · next hk =>
    cases hu
    rw [← hk]
    exact (hrow hr).imp_right fun ⟨w, hw, hfree⟩ => ⟨w, hw, hfree, rfl⟩
  · exact .inl ⟨u, hu, hr⟩

theorem startsUnheld_claimTask {r : ClaimRequest} {edit : Task → Task} {answer : Claim}
    (hedit : ∀ t, (edit t).workspace = t.workspace) (h : s.claimTask id r edit = .ok (answer, s')) : StartsUnheld s s' := by
  rcases claimTask_cases h with ⟨-, rfl⟩ | ⟨t, -, hfree, -, -, rfl⟩
  · exact startsUnheld_of_tasks rfl
  · refine startsUnheld_insert fun _ => .inr ?_
    -- the claimed row is of the workspace that the claim looked at
    have hws : (taken t r edit).workspace = t.workspace := hedit _
    rw [hws]
    exact hfree

theorem TaskWrite.startsUnheld (h : TaskWrite s s') : StartsUnheld s s' := by
  cases h with
  | untouched h => exact startsUnheld_of_tasks h
  | change id change hchange h =>
    obtain ⟨t, ht, hc, rfl⟩ := updateTask_ok_iff.1 h
    exact startsUnheld_insert fun hr => .inl ⟨t, get?_of_task? ht, (hchange _ _ hc).running hr⟩
  | claim id r edit hedit h => exact startsUnheld_claimTask (fun t => (hedit t).2.1) h

theorem startsUnheld_createTask (ht : t.status ≠ .running) (h : s.createTask t = some (t', s')) : StartsUnheld s s' := by
  obtain ⟨-, rfl, rfl⟩ := createTask_cases h
  have hinsert : StartsUnheld s { s with
      tasks := s.tasks.insert (taskKey (s.lastTaskId + 1)) (.record { t with id := s.lastTaskId + 1 }) } :=
    startsUnheld_insert fun hr => absurd hr ht
  exact hinsert

theorem startsUnheld_confirmApply {user : String} {now : UInt64} (h : s.confirmApply id user now = .ok (t', s')) :
    StartsUnheld s s' := by
  obtain ⟨t, -, hst, rfl, rfl⟩ := confirmApply_ok_iff.1 h
  refine startsUnheld_insert fun hr => ?_
  have hr : t.status = .running := hr
  rw [hst] at hr
  cases hr

end TaskFleet.Store
