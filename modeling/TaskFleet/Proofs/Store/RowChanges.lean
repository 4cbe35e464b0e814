/-
  TaskFleet.Proofs.Store.RowChanges — what the changes of a task's row have in common.

  Every change of a row but a claim and a confirmation is mild: it leaves alone what the task
  is and who confirmed it, makes at most one move of the table and starts no task. Changes of the
  same kind that may start one are tame. A gentle change moves the task by the rules, as far as it
  likes, but starts no pending one.
  - `tame_settle` … and `mild_settle` … `mild_concludeFailure`: the changes that dispatch, completion,
    the sweep, start-up and the commands on this machine make.
  - `Gentle.terminal`: no gentle change wakes up a task that is over.
-/

import Mathlib.Logic.Relation
import TaskFleet.Proofs.Store.Transactions
import TaskFleet.Dispatch.Claim
import TaskFleet.LocalCommand.Executor
import TaskFleet.Recovery

namespace TaskFleet

/-- One entry of the table of moves. -/
def TaskStatus.Move (a b : TaskStatus) : Prop := a.canMove b = true

theorem TaskStatus.eq_of_path_of_terminal {a b : TaskStatus} (h : Relation.ReflTransGen Move a b)
    (ha : a.isTerminal = true) : b = a := by
  induction h with
  | refl => rfl
  | tail _ hmove ih =>
    subst ih
    have hnone := TaskStatus.canMove_of_terminal ha
    exact absurd hmove (by simp [TaskStatus.Move, hnone])

namespace Task

variable {t t' : Task} {now : UInt64}

/-- The rows are of one task, moved by the rules, and a pending task does not start. -/
structure Gentle (t t' : Task) : Prop where
  id : t'.id = t.id
  kind : t'.kind = t.kind
  workspace : t'.workspace = t.workspace
  path : Relation.ReflTransGen TaskStatus.Move t.status t'.status
  waiting : t.status = .pending → t'.status = .pending ∨ t'.status = .cancelled ∨ t'.status = .failed

/-- The rows are of one task, confirmed by the same operator and at most one move apart. -/
structure Tame (t t' : Task) : Prop where
  id : t'.id = t.id
  kind : t'.kind = t.kind
  workspace : t'.workspace = t.workspace
  confirmedBy : t'.confirmedBy = t.confirmedBy
  move : t'.status = t.status ∨ t.status.Move t'.status

/-- The change is tame, and a task that runs after it ran before. -/
structure Mild (t t' : Task) : Prop extends Tame t t' where
  running : t'.status = .running → t.status = .running

theorem Gentle.terminal (h : Gentle t t') (ht : t.status.isTerminal = true) : t'.status.isTerminal = true := by
  rw [TaskStatus.eq_of_path_of_terminal h.path ht]; exact ht

/-- No pending task succeeds. -/
theorem end_of_pending {status : TaskStatus} (hend : status.isTerminal = true)
    (hm : TaskStatus.canMove .pending status = true) : status = .cancelled ∨ status = .failed := by
  cases status with
  | cancelled => exact .inl rfl
  | failed => exact .inr rfl
  | success | applied | plannedAndFinished => cases hm
  | pending | running | applyPending => cases hend

theorem gentle_conclude {status : TaskStatus} (hend : status.isTerminal = true) (h : t.conclude status now = .ok t') :
    Gentle t t' := by
  obtain ⟨hm, rfl⟩ := Store.conclude_ok_iff.1 h
  refine ⟨rfl, rfl, rfl, .single hm, fun hp => ?_⟩
  rw [hp] at hm
  exact .inr (end_of_pending hend hm)

/-! ## Tame changes -/

theorem Tame.of_same_status (hid : t'.id = t.id) (hk : t'.kind = t.kind) (hw : t'.workspace = t.workspace)
    (hc : t'.confirmedBy = t.confirmedBy) (hs : t'.status = t.status) : Tame t t' := ⟨hid, hk, hw, hc, .inl hs⟩

theorem tame_settle (holder : String) (t : Task) : Tame t (t.settle holder) := .of_same_status rfl rfl rfl rfl rfl

theorem tame_countRetry (t : Task) : Tame t t.countRetry := .of_same_status rfl rfl rfl rfl rfl

theorem tame_conclude {status : TaskStatus} (h : t.conclude status now = .ok t') : Tame t t' := by
  obtain ⟨hm, rfl⟩ := Store.conclude_ok_iff.1 h
  exact ⟨rfl, rfl, rfl, rfl, .inr hm⟩

/-- The reason of an end is noted on the row before the move. -/
theorem tame_conclude_with {status : TaskStatus} {message : Option String}
    (h : { t with errorMessage := message }.conclude status now = .ok t') : Tame t t' := by
  have htame := tame_conclude h
  exact ⟨htame.id, htame.kind, htame.workspace, htame.confirmedBy, htame.move⟩

theorem tame_rollBack {previous : Task} (h : rollBack previous t = .ok t') : Tame t t' := by
  unfold rollBack at h
  split at h
  · cases h; exact .of_same_status rfl rfl rfl rfl rfl
  · obtain ⟨hm, rfl⟩ := Store.map_move_ok_iff.1 h
    exact ⟨rfl, rfl, rfl, rfl, .inr hm⟩

theorem tame_giveBack (h : t.giveBack = .ok t') : Tame t t' := by
  obtain ⟨-, hm, rfl⟩ | ⟨-, hm, rfl⟩ := Store.giveBack_ok_iff.1 h
  · exact ⟨rfl, rfl, rfl, rfl, .inr hm⟩
  · exact ⟨rfl, rfl, rfl, rfl, .inr hm⟩

theorem tame_restore (h : t.restore = .ok t') : Tame t t' := by
  obtain ⟨hm, rfl⟩ := Store.map_move_ok_iff.1 h
  exact ⟨rfl, rfl, rfl, rfl, .inr hm⟩

theorem tame_concludeSuccess {action : AgentAction} (h : LocalCommand.concludeSuccess action now t = .ok t') :
    Tame t t' := by
  cases action with
  | plan =>
    have h : LocalCommand.concludePlan now t = .ok t' := h
    unfold LocalCommand.concludePlan at h
    split at h
    · obtain ⟨hm, rfl⟩ := Store.move_ok_iff.1 h
      exact ⟨rfl, rfl, rfl, rfl, .inr hm⟩
    · exact tame_conclude h
  | apply => exact tame_conclude h

/-! ## Mild changes -/

theorem Tame.mild (h : Tame t t') (hs : t'.status = t.status ∨ t'.status ≠ .running) : Mild t t' :=
  ⟨h, fun hr => hs.elim (fun he => he ▸ hr) fun hne => absurd hr hne⟩

theorem mild_settle (holder : String) (t : Task) : Mild t (t.settle holder) := (tame_settle holder t).mild (.inl rfl)

theorem mild_countRetry (t : Task) : Mild t t.countRetry := (tame_countRetry t).mild (.inl rfl)

theorem mild_conclude {status : TaskStatus} (hend : status.isTerminal = true) (h : t.conclude status now = .ok t') :
    Mild t t' := by
  refine (tame_conclude h).mild (.inr ?_)
  obtain ⟨-, rfl⟩ := Store.conclude_ok_iff.1 h
  rintro rfl
  cases hend

theorem mild_conclude_with {status : TaskStatus} {message : Option String} (hend : status.isTerminal = true)
    (h : { t with errorMessage := message }.conclude status now = .ok t') : Mild t t' :=
  ⟨tame_conclude_with h, (mild_conclude hend h).running⟩

/-- No move leads from running to running. -/
theorem mild_rollBack {previous : Task} (h : rollBack previous t = .ok t') : Mild t t' := by
  refine (tame_rollBack h).mild ?_
  unfold rollBack at h
  split at h
  · cases h; exact .inl rfl
  · next hrun =>
    obtain ⟨hm, rfl⟩ := Store.map_move_ok_iff.1 h
    rw [Classical.not_not.1 hrun] at hm
    refine .inr fun he => ?_
    have he : previous.status = .running := he
    rw [he] at hm
    cases hm

theorem mild_failIfRunning {reason : String} (h : failIfRunning reason now t = .ok t') : Mild t t' := by
  unfold failIfRunning at h
  split at h
  · cases h; exact (Tame.of_same_status rfl rfl rfl rfl rfl).mild (.inl rfl)
  · exact mild_conclude_with rfl h

theorem mild_giveBack (h : t.giveBack = .ok t') : Mild t t' := by
  refine (tame_giveBack h).mild (.inr ?_)
  obtain ⟨-, -, rfl⟩ | ⟨-, -, rfl⟩ := Store.giveBack_ok_iff.1 h
  · exact TaskStatus.noConfusion
  · exact TaskStatus.noConfusion

theorem mild_restore (h : t.restore = .ok t') : Mild t t' := by
  refine (tame_restore h).mild (.inr ?_)
  obtain ⟨-, rfl⟩ := Store.map_move_ok_iff.1 h
  exact TaskStatus.noConfusion

theorem mild_failInterrupted (h : t.failInterrupted now = .ok t') : Mild t t' := mild_conclude_with rfl h

theorem mild_cancelTriggered (h : t.cancelTriggered now = .ok t') : Mild t t' := mild_conclude_with rfl h

theorem mild_concludeSuccess {action : AgentAction} (h : LocalCommand.concludeSuccess action now t = .ok t') :
    Mild t t' := by
  cases action with
  | plan =>
    have hplan : LocalCommand.concludePlan now t = .ok t' := h
    unfold LocalCommand.concludePlan at hplan
    split at hplan
    · refine (tame_concludeSuccess h).mild (.inr ?_)
      obtain ⟨-, rfl⟩ := Store.move_ok_iff.1 hplan
      exact TaskStatus.noConfusion
    · exact mild_conclude rfl hplan
  | apply => exact mild_conclude rfl h

theorem mild_concludeFailure {message : String} (h : LocalCommand.concludeFailure message now t = .ok t') : Mild t t' :=
  mild_conclude_with rfl h

end Task

end TaskFleet
