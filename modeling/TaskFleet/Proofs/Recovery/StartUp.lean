/-
  TaskFleet.Proofs.Recovery.StartUp — what a restart does to the tasks and whom it queues.

  Three passes go over the task table: running tasks that nobody has a good lease on are put
  back to their confirmation or have failed, pending tasks that another run triggered are
  cancelled, and the workspaces with work that can start are queued. Each pass reads what
  the one before it wrote.
  - `Task.recovered`: what the first two passes make of one task.
  - `run_cleanEach`, `run_cancelEach`: the two loops, which rewrite the rows they were given.
  - `run_recover`: all three passes.
  - `recovery_puts_store_in_order`: a start-up recovery of any readable store, and the one
    after it, which finds nothing to do and queues the same workspaces.
-/

import TaskFleet.Proofs.Recovery.Sweep

namespace TaskFleet

/-! ## One task -/

namespace Task

variable {t : Task} {now : UInt64}

/-- A running task that nobody has a good lease on. -/
def isOrphan (now : UInt64) (t : Task) : Bool := t.status == .running && !t.isLeasedAt now

/-- A task that another run triggered, and that has not started. -/
def isTriggered (t : Task) : Bool := t.status == .pending && t.origin == .runTrigger

/-- An orphan that had come to its confirmation waits for it again; any other has failed. -/
def cleaned (now : UInt64) (t : Task) : Task :=
  if t.stage = some .applyPending then { t with status := .applyPending, agent := none, lease := none }
  else { t with status := .failed, errorMessage := some interruptedMessage, completedAt := some now, lease := none }

def cancelled (now : UInt64) (t : Task) : Task :=
  { t with status := .cancelled, errorMessage := some triggerCancelledMessage, completedAt := some now, lease := none }

/-- A task after a restart. -/
def recovered (now : UInt64) (t : Task) : Task :=
  if t.isOrphan now then t.cleaned now else if t.isTriggered then t.cancelled now else t

@[simp] theorem cleaned_id (now : UInt64) (t : Task) : (t.cleaned now).id = t.id := by unfold cleaned; split <;> rfl

@[simp] theorem cancelled_id (now : UInt64) (t : Task) : (t.cancelled now).id = t.id := rfl

theorem isOrphan_iff : t.isOrphan now = true ↔ t.status = .running ∧ t.isLeasedAt now = false := by simp [isOrphan]

theorem isTriggered_iff : t.isTriggered = true ↔ t.status = .pending ∧ t.origin = .runTrigger := by simp [isTriggered]

theorem restore_eq (h : t.status = .running) (hst : t.stage = some .applyPending) : t.restore = .ok (t.cleaned now) :=
  Store.map_move_ok_iff.2 ⟨by rw [h]; rfl, if_pos hst⟩

theorem failInterrupted_eq (h : t.status = .running) (hst : t.stage ≠ some .applyPending) :
    t.failInterrupted now = .ok (t.cleaned now) :=
  Store.conclude_ok_iff.2 ⟨by rw [h]; rfl, if_neg hst⟩

theorem cancelTriggered_eq (h : t.status = .pending) : t.cancelTriggered now = .ok (t.cancelled now) :=
  Store.conclude_ok_iff.2 ⟨by rw [h]; rfl, rfl⟩

/-- The clean-up makes no pending task. -/
theorem status_cleaned (now : UInt64) (t : Task) :
    (t.cleaned now).status = .applyPending ∨ (t.cleaned now).status = .failed := by
  unfold cleaned
  split
  · exact .inl rfl
  · exact .inr rfl

theorem isTriggered_cleaned (now : UInt64) (t : Task) : (t.cleaned now).isTriggered = false := by
  unfold isTriggered
  rcases status_cleaned now t with h | h <;> rw [h] <;> rfl

theorem not_isOrphan_of_isTriggered (h : t.isTriggered = true) : t.isOrphan now = false := by
  unfold isOrphan
  rw [(isTriggered_iff.1 h).1]
  rfl

/-- A task is rewritten by one of the first two passes at most. -/
theorem recovered_eq (now : UInt64) (t : Task) :
    t.recovered now =
      let u := if t.isOrphan now then t.cleaned now else t
      if u.isTriggered then u.cancelled now else u := by
  unfold recovered
  by_cases h : t.isOrphan now = true
  · simp [h, isTriggered_cleaned]
  · simp [h]

theorem isOrphan_recovered (now : UInt64) (t : Task) : (t.recovered now).isOrphan now = false := by
  unfold recovered
  split
  · unfold isOrphan
    rcases status_cleaned now t with h | h <;> rw [h] <;> rfl
  · next horphan =>
    split
    · rfl
    · exact Bool.eq_false_iff.2 horphan

theorem isTriggered_recovered (now : UInt64) (t : Task) : (t.recovered now).isTriggered = false := by
  unfold recovered
  split
  · exact isTriggered_cleaned now t
  · split
    · rfl
    · next htriggered => exact Bool.eq_false_iff.2 htriggered

end Task

/-! ## The first two passes -/

namespace StoreProgram

variable {s : Store} {ts : List Task} {now : UInt64}

/-- Those of these tasks that had come to their confirmation, and the others. -/
def restoredOf (ts : List Task) : List Task := ts.filter (·.stage == some .applyPending)

def failedOf (ts : List Task) : List Task := ts.filter (·.stage != some .applyPending)

theorem run_cleanEach (hs : s.Keyed) (hdistinct : (ts.map (·.id)).Nodup) (hrows : ∀ t ∈ ts, s.Holds t ∧ t.status = .running) :
    let orphans := ts.filter (·.isOrphan now)
    (cleanEach now ts).run.run s =
      (.finished (.ok ((restoredOf orphans).map (·.id), (failedOf orphans).map (·.id))),
        s.rewriteAll (Task.cleaned now) orphans) := by
  induction ts generalizing s with
  | nil => rfl
  | cons t ts ih =>
    obtain ⟨⟨ht, hr⟩, hrest⟩ := List.forall_mem_cons.1 hrows
    have hdistinct' : (ts.map (·.id)).Nodup := (List.nodup_cons.1 hdistinct).2
    have hlater := Store.held_after_setTask hdistinct hrest (Task.cleaned_id now t)
    have ih' := ih (hs.setTask (t.cleaned now)) hdistinct' hlater
    unfold cleanEach
    by_cases hleased : t.isLeasedAt now = true
    · -- somebody works on it
      have hskip : t.isOrphan now = false := by simp [Task.isOrphan, hleased]
      simp only [hleased, if_true, List.filter_cons, hskip, Bool.false_eq_true, if_false]
      exact ih hs hdistinct' hrest
    have horphan : t.isOrphan now = true := Task.isOrphan_iff.2 ⟨hr, Bool.eq_false_iff.2 hleased⟩
    simp only [hleased, Bool.false_eq_true, if_false, List.filter_cons, horphan, if_true]
    by_cases hst : t.stage = some .applyPending
    · rw [if_pos hst, run_transaction_bind _ (hs.updateTask_eq ht (Task.restore_eq hr hst) (Task.cleaned_id now t)),
        run_bind_finished _ ih']
      simp only [restoredOf, failedOf, List.filter_cons, hst]
      rfl
    · rw [if_neg hst, run_transaction_bind _ (hs.updateTask_eq ht (Task.failInterrupted_eq hr hst) (Task.cleaned_id now t)),
        run_bind_finished _ ih']
      have hne : (t.stage == some Stage.applyPending) = false := by simpa using hst
      simp only [restoredOf, failedOf, List.filter_cons, hne, bne]
      rfl

theorem run_cancelEach (hs : s.Keyed) (hdistinct : (ts.map (·.id)).Nodup) (hrows : ∀ t ∈ ts, s.Holds t ∧ t.status = .pending) :
    (cancelEach now ts).run.run s = (.finished (.ok (ts.map (·.id))), s.rewriteAll (Task.cancelled now) ts) := by
  induction ts generalizing s with
  | nil => rfl
  | cons t ts ih =>
    obtain ⟨⟨ht, hp⟩, hrest⟩ := List.forall_mem_cons.1 hrows
    have hlater := Store.held_after_setTask hdistinct hrest (Task.cancelled_id now t)
    unfold cancelEach
    rw [run_transaction_bind _ (hs.updateTask_eq ht (Task.cancelTriggered_eq hp) (Task.cancelled_id now t)),
      run_bind_finished _ (ih (hs.setTask _) (List.nodup_cons.1 hdistinct).2 hlater)]
    rfl

theorem run_cleanOrphans (hs : s.Keyed) (now : UInt64) :
    ∃ orphans, s.Lists (·.isOrphan now = true) orphans ∧
      (cleanOrphans now).run.run s =
        (.finished (.ok ((restoredOf orphans).map (·.id), (failedOf orphans).map (·.id))),
          s.rewriteAll (Task.cleaned now) orphans) := by
  obtain ⟨running, hrunning, hlist⟩ := hs.tasksWhere_ok (·.status == .running)
  have hrows : ∀ t ∈ running, s.Holds t ∧ t.status = .running := by
    intro t ht
    obtain ⟨hheld, hst⟩ := (hlist.mem t).1 ht
    exact ⟨hheld, beq_iff_eq.1 hst⟩
  refine ⟨running.filter (·.isOrphan now), (hlist.filter _).congr fun t _ => ?_,
    (run_read_bind _ hrunning).trans (run_cleanEach hs hlist.nodup hrows)⟩
  simp [Task.isOrphan]

theorem run_cancelRunTriggers (hs : s.Keyed) (now : UInt64) :
    ∃ triggered, s.Lists (·.isTriggered = true) triggered ∧
      (cancelRunTriggers now).run.run s =
        (.finished (.ok (triggered.map (·.id))), s.rewriteAll (Task.cancelled now) triggered) := by
  obtain ⟨pending, hpending, hlist⟩ := hs.tasksWhere_ok (·.status == .pending)
  have hlist' : s.Lists (·.isTriggered = true) (pending.filter (·.origin == .runTrigger)) :=
    (hlist.filter _).congr fun t _ => by simp [Task.isTriggered]
  refine ⟨_, hlist', (run_read_bind _ hpending).trans (run_cancelEach hs hlist'.nodup fun t ht => ?_)⟩
  obtain ⟨hheld, htriggered⟩ := (hlist'.mem t).1 ht
  exact ⟨hheld, (Task.isTriggered_iff.1 htriggered).1⟩

end StoreProgram

/-! ## All three passes -/

namespace Recovery

open Fallible StoreProgram

variable {w w' w₂ : World} {report : RecoveryReport} {s : Store} {now : UInt64} {orphans triggered pending parked : List Task}
  {t' : Task}

/-- The store after the first two passes. -/
def putInOrder (s : Store) (now : UInt64) (orphans triggered : List Task) : Store :=
  (s.rewriteAll (Task.cleaned now) orphans).rewriteAll (Task.cancelled now) triggered

/-- The workspaces that are queued after a restart, each once. -/
def queuedOf (pending parked : List Task) : List String :=
  ((pending ++ parked.filter (·.isApplyConfirmed)).map (·.workspace)).eraseDups

theorem holds_cleaned (h : s.Lists (·.isOrphan now = true) orphans) :
    (s.rewriteAll (Task.cleaned now) orphans).Holds t' ↔ ∃ t, s.Holds t ∧ t' = if t.isOrphan now then t.cleaned now else t :=
  Store.holds_rewriteAll_where (Task.cleaned_id now) h.nodup h.mem

/-- The second pass finds the tasks that it would have found before the first. -/
theorem lists_triggered_before (horphans : s.Lists (·.isOrphan now = true) orphans)
    (h : (s.rewriteAll (Task.cleaned now) orphans).Lists (·.isTriggered = true) triggered) :
    s.Lists (·.isTriggered = true) triggered := by
  refine ⟨h.ascending, fun t => ?_⟩
  rw [h.mem, holds_cleaned horphans]
  constructor
  · rintro ⟨⟨u, hu, rfl⟩, htriggered⟩
    split at htriggered
    · rw [Task.isTriggered_cleaned] at htriggered
      cases htriggered
    · next horphan =>
      rw [if_neg horphan]
      exact ⟨hu, htriggered⟩
  · rintro ⟨ht, htriggered⟩
    exact ⟨⟨t, ht, by rw [Task.not_isOrphan_of_isTriggered htriggered]; rfl⟩, htriggered⟩

/-- After both passes every task is as a restart leaves it. -/
theorem holds_putInOrder (horphans : s.Lists (·.isOrphan now = true) orphans)
    (htriggered : (s.rewriteAll (Task.cleaned now) orphans).Lists (·.isTriggered = true) triggered) :
    (putInOrder s now orphans triggered).Holds t' ↔ ∃ t, s.Holds t ∧ t' = t.recovered now := by
  unfold putInOrder
  rw [Store.holds_rewriteAll_where (Task.cancelled_id now) htriggered.nodup htriggered.mem]
  simp only [holds_cleaned horphans, Task.recovered_eq]
  constructor
  · rintro ⟨_, ⟨t, ht, rfl⟩, rfl⟩
    exact ⟨t, ht, rfl⟩
  · rintro ⟨t, ht, rfl⟩
    exact ⟨_, ⟨t, ht, rfl⟩, rfl⟩

theorem run_workspacesWithPending (h : s.tasksWhere (·.status == .pending) = .ok pending) :
    (StoreProgram.read (·.workspacesWithPending)).run.run s =
      (.finished (.ok (firstOccurrences (pending.map (·.workspace)))), s) := by
  have hlisted : s.workspacesWithPending = .ok (firstOccurrences (pending.map (·.workspace))) := by
    unfold Store.workspacesWithPending
    rw [h]
    rfl
  rw [← hlisted]
  rfl

theorem queuedOf_eq (pending parked : List Task) :
    firstOccurrences (firstOccurrences (pending.map (·.workspace)) ++ (parked.filter (·.isApplyConfirmed)).map (·.workspace)) =
      queuedOf pending parked := by
  rw [Store.firstOccurrences_append, ← List.map_append, Store.firstOccurrences_eq_eraseDups]
  rfl

theorem run_recover (hs : w.store.Keyed) :
    ∃ orphans triggered pending parked, w.store.Lists (·.isOrphan w.now = true) orphans ∧
      w.store.Lists (·.isTriggered = true) triggered ∧
      (putInOrder w.store w.now orphans triggered).Keyed ∧
      (∀ t', (putInOrder w.store w.now orphans triggered).Holds t' ↔ ∃ t, w.store.Holds t ∧ t' = t.recovered w.now) ∧
      (putInOrder w.store w.now orphans triggered).tasksWhere (·.status == .pending) = .ok pending ∧
      (putInOrder w.store w.now orphans triggered).tasksWhere (·.status == .applyPending) = .ok parked ∧
      recover.run.run w =
        (.finished (.ok ⟨(restoredOf orphans).map (·.id), (failedOf orphans).map (·.id), triggered.map (·.id),
            parked.length, queuedOf pending parked⟩),
          { w with store := putInOrder w.store w.now orphans triggered }.triggerAll (queuedOf pending parked)) := by
  obtain ⟨orphans, horphans, hclean⟩ := run_cleanOrphans hs w.now
  have hs₁ : (w.store.rewriteAll (Task.cleaned w.now) orphans).Keyed := hs.rewriteAll _ _
  obtain ⟨triggered, htriggered, hcancel⟩ := run_cancelRunTriggers hs₁ w.now
  have hs₂ : (putInOrder w.store w.now orphans triggered).Keyed := hs₁.rewriteAll _ _
  obtain ⟨pending, hpending, -⟩ := hs₂.tasksWhere_ok (·.status == .pending)
  obtain ⟨parked, hparked, -⟩ := hs₂.tasksWhere_ok (·.status == .applyPending)
  refine ⟨orphans, triggered, pending, parked, horphans, lists_triggered_before horphans htriggered, hs₂,
    fun t' => holds_putInOrder horphans htriggered, hpending, hparked, ?_⟩
  have hnames := run_workspacesWithPending hpending
  have hwaiting : (StoreProgram.read (·.tasksWhere (·.status == .applyPending))).run.run
      (putInOrder w.store w.now orphans triggered) =
      (.finished (.ok parked), putInOrder w.store w.now orphans triggered) := by
    rw [← hparked]
    rfl
  unfold recover
  rw [run_always_bind, Program.run_get_bind, run_onStore_bind _ hclean, run_onStore_bind _ hcancel, run_onStore_bind _ hnames,
    run_onStore_bind _ hwaiting]
  simp only [queuedOf_eq]
  rw [run_always_bind, Program.run_bind, run_trigger]
  rfl

/-- What a start-up recovery of the first world has made of it. -/
structure InOrder (w w' : World) (report : RecoveryReport) : Prop where
  /-- Every task is as a restart leaves it, and there are no others. -/
  rows : ∀ t', w'.store.Holds t' ↔ ∃ t, w.store.Holds t ∧ t' = t.recovered w.now
  /-- Whatever still runs has somebody with a good lease on it. -/
  leased : ∀ t, w'.store.Holds t → t.status = .running → ∃ l, t.lease = some l ∧ w.now < l.expiresAt
  restored : ∃ ts, w.store.Lists (fun t => t.isOrphan w.now = true ∧ t.stage = some .applyPending) ts ∧
    report.restored = ts.map (·.id)
  failed : ∃ ts, w.store.Lists (fun t => t.isOrphan w.now = true ∧ t.stage ≠ some .applyPending) ts ∧
    report.failed = ts.map (·.id)
  cancelled : ∃ ts, w.store.Lists (·.isTriggered = true) ts ∧ report.cancelled = ts.map (·.id)
  /-- The workspaces of the pending tasks come first, then those of the confirmed applies. -/
  queued : ∃ pending parked, w'.store.Lists (·.status = .pending) pending ∧
    w'.store.Lists (·.status = .applyPending) parked ∧ report.applyPending = parked.length ∧
    report.triggered = queuedOf pending parked
  due : ∀ name ∈ report.triggered, ∃ d, w'.queue.deadline? name = some d ∧ d ≤ w'.clock
  others : ∀ name, name ∉ report.triggered → w'.queue.deadline? name = w.queue.deadline? name
  /-- Only the store and the queue notice the recovery. -/
  aside : w' = { w with store := w'.store, queue := w'.queue, queueNotified := w'.queueNotified }

theorem isLeasedAt_iff {t : Task} {now : UInt64} : t.isLeasedAt now = true ↔ ∃ l, t.lease = some l ∧ now < l.expiresAt := by
  unfold Task.isLeasedAt
  cases t.lease <;> simp

/-- Nothing is left to do where every task is as a restart leaves it. -/
theorem run_recover_again (hs : w₂.store.Keyed) (horphans : ∀ t, w₂.store.Holds t → t.isOrphan w₂.now = false)
    (htriggered : ∀ t, w₂.store.Holds t → t.isTriggered = false)
    (hpending : w₂.store.tasksWhere (·.status == .pending) = .ok pending)
    (hparked : w₂.store.tasksWhere (·.status == .applyPending) = .ok parked) :
    recover.run.run w₂ = (.finished (.ok ⟨[], [], [], parked.length, queuedOf pending parked⟩),
      w₂.triggerAll (queuedOf pending parked)) := by
  obtain ⟨orphans, triggered, pending', parked', ho, ht, -, -, hp, hq, hrun⟩ := run_recover hs
  obtain rfl : orphans = [] := ho.eq_nil fun t hheld horphan => by rw [horphans t hheld] at horphan; cases horphan
  obtain rfl : triggered = [] := ht.eq_nil fun t hheld htr => by rw [htriggered t hheld] at htr; cases htr
  obtain rfl : pending = pending' := Except.ok.inj (hpending.symm.trans hp)
  obtain rfl : parked = parked' := Except.ok.inj (hparked.symm.trans hq)
  exact hrun

/-- One more recovery at that time, whatever has happened to the rest of the world, finds nothing
    to restore, fail or cancel, leaves every row as it is and queues the same workspaces. -/
def NothingLeft (w w' : World) (report : RecoveryReport) : Prop :=
  ∀ w₂ : World, w₂.store = w'.store → w₂.now = w.now →
    ∃ w₃, recover.run.run w₂ = (.finished (.ok { report with restored := [], failed := [], cancelled := [] }), w₃) ∧
      w₃.store = w₂.store ∧ ∀ name ∈ report.triggered, ∃ d, w₃.queue.deadline? name = some d ∧ d ≤ w₃.clock

theorem nothingLeft_of_rows (hstore : w'.store = s) (hs : s.Keyed)
    (hrows : ∀ t', s.Holds t' ↔ ∃ t, w.store.Holds t ∧ t' = t.recovered w.now)
    (hpending : s.tasksWhere (·.status == .pending) = .ok pending)
    (hparked : s.tasksWhere (·.status == .applyPending) = .ok parked) {restored failed cancelled : List UInt64} :
    NothingLeft w w' ⟨restored, failed, cancelled, parked.length, queuedOf pending parked⟩ := by
  intro w₂ hw₂ hnow
  rw [hstore] at hw₂
  have hrun := run_recover_again (hw₂ ▸ hs) (fun t ht => ?_) (fun t ht => ?_) (hw₂ ▸ hpending) (hw₂ ▸ hparked)
  · obtain ⟨queue, notified, hw₃⟩ := World.triggerAll_eq w₂ (queuedOf pending parked)
    refine ⟨_, hrun, by rw [hw₃], fun name hin => ?_⟩
    have hclock : (w₂.triggerAll (queuedOf pending parked)).clock = w₂.clock := by rw [hw₃]
    rw [hclock]
    exact World.due_of_mem_triggerAll hin
  · rw [hw₂] at ht
    obtain ⟨u, -, rfl⟩ := (hrows t).1 ht
    rw [hnow]
    exact Task.isOrphan_recovered w.now u
  · rw [hw₂] at ht
    obtain ⟨u, -, rfl⟩ := (hrows t).1 ht
    exact Task.isTriggered_recovered w.now u

theorem recover_keyed (hs : w.store.Keyed) :
    ∃ report w', recover.run.run w = (.finished (.ok report), w') ∧ InOrder w w' report ∧ NothingLeft w w' report := by
  obtain ⟨orphans, triggered, pending, parked, horphans, htriggered, hs', hrows, hpending, hparked, hrun⟩ := run_recover hs
  obtain ⟨queue, notified, hw'⟩ := World.triggerAll_eq { w with store := putInOrder w.store w.now orphans triggered }
    (queuedOf pending parked)
  have hstore : ({ w with store := putInOrder w.store w.now orphans triggered }.triggerAll (queuedOf pending parked)).store =
      putInOrder w.store w.now orphans triggered := by rw [hw']
  have hclock : ({ w with store := putInOrder w.store w.now orphans triggered }.triggerAll (queuedOf pending parked)).clock =
      w.clock := by rw [hw']
  obtain ⟨_, hp, hlistP⟩ := hs'.tasksWhere_ok (·.status == .pending)
  obtain ⟨_, hq, hlistQ⟩ := hs'.tasksWhere_ok (·.status == .applyPending)
  obtain rfl := Except.ok.inj (hpending.symm.trans hp)
  obtain rfl := Except.ok.inj (hparked.symm.trans hq)
  refine ⟨_, _, hrun, ⟨?_, ?_, ?_, ?_, ⟨triggered, htriggered, rfl⟩, ?_, ?_, ?_, ?_⟩, ?_⟩
  · rw [hstore]
    exact hrows
  · rw [hstore]
    intro t' ht' hst
    obtain ⟨t, -, rfl⟩ := (hrows t').1 ht'
    by_contra hno
    have horphan : (t.recovered w.now).isOrphan w.now = true :=
      Task.isOrphan_iff.2 ⟨hst, Bool.eq_false_iff.2 fun hl => hno (isLeasedAt_iff.1 hl)⟩
    rw [Task.isOrphan_recovered] at horphan
    cases horphan
  · exact ⟨_, (horphans.filter _).congr fun t _ => by simp, rfl⟩
  · exact ⟨_, (horphans.filter _).congr fun t _ => by simp, rfl⟩
  · rw [hstore]
    exact ⟨pending, parked, hlistP.congr fun t _ => beq_iff_eq, hlistQ.congr fun t _ => beq_iff_eq, rfl, rfl⟩
  · rw [hclock]
    exact fun name => World.due_of_mem_triggerAll (w := { w with store := putInOrder w.store w.now orphans triggered })
  · exact fun name => World.deadline?_triggerAll (w := { w with store := putInOrder w.store w.now orphans triggered })
  · rw [hw']
  · exact nothingLeft_of_rows hstore hs' hrows hpending hparked

/-- A row that is no record stops the recovery before it writes anything. -/
theorem recover_of_unreadable {k text : String} (h : w.store.tasks.get? k = some (.unreadable text)) :
    recover.run.run w = (.finished (.error .unreadable), w) := by
  have hread : w.store.tasksWhere (·.status == .running) = .error .unreadable := by
    unfold Store.tasksWhere
    rw [Store.listTasks_of_unreadable h]
    rfl
  have hclean : (cleanOrphans w.now).run.run w.store = (.finished (.error .unreadable), w.store) := run_read_bind_error _ hread
  unfold recover
  rw [run_always_bind, Program.run_get_bind, run_onStore_bind_error _ hclean]

/-- A start-up recovery of any store whose tasks are under their own keys puts it in order, and
    one more finds nothing left to do. Only if some row is no record, the recovery says so, and
    has changed nothing. -/
theorem recovery_puts_store_in_order (hown : ∀ k t, w.store.tasks.get? k = some (.record t) → k = t.key) :
    (∃ report w', recover.run.run w = (.finished (.ok report), w') ∧ InOrder w w' report ∧ NothingLeft w w' report) ∨
    ((∃ k text, w.store.tasks.get? k = some (.unreadable text)) ∧
      recover.run.run w = (.finished (.error .unreadable), w)) := by
  by_cases hbad : ∃ k text, w.store.tasks.get? k = some (.unreadable text)
  · obtain ⟨k, text, hrow⟩ := hbad
    exact .inr ⟨⟨k, text, hrow⟩, recover_of_unreadable hrow⟩
  · refine .inl (recover_keyed fun k row hrow => ?_)
    cases row with
    | record t => exact ⟨t, rfl, hown k t hrow⟩
    | unreadable text => exact absurd ⟨k, text, hrow⟩ hbad

/-- An apply that was confirmed, a plan whose lease ran out and one with a good lease were running,
    and a triggered plan and a drift check were pending. -/
def afterCrash : Store :=
  ({} : Store)
    |>.setTask { id := 1, workspace := "shop", kind := .planAndApply, status := .running, stage := some .applyPending,
                 agent := some "agent", confirmedBy := some "alice", createdAt := 0 }
    |>.setTask { id := 2, workspace := "lab", kind := .plan, status := .running, createdAt := 0, lease := some ⟨"a", 0, 60⟩ }
    |>.setTask { id := 3, workspace := "lab", kind := .plan, status := .running, createdAt := 0, lease := some ⟨"b", 0, 61⟩ }
    |>.setTask { id := 4, workspace := "lab", kind := .plan, status := .pending, origin := .runTrigger, createdAt := 0 }
    |>.setTask { id := 5, workspace := "ws", kind := .driftCheck, status := .pending, createdAt := 0 }

theorem keyed_afterCrash : afterCrash.Keyed :=
  (((((Store.keyed_empty.setTask _).setTask _).setTask _).setTask _).setTask _)

theorem recovery_puts_store_in_order_after_crash :
    (∀ k t, afterCrash.tasks.get? k = some (.record t) → k = t.key) ∧
      ∃ w', recover.run.run { clock := 60000, store := afterCrash } = (.finished (.ok ⟨[1], [2], [4], 1, ["ws", "shop"]⟩), w') ∧
        InOrder { clock := 60000, store := afterCrash } w' ⟨[1], [2], [4], 1, ["ws", "shop"]⟩ ∧
        NothingLeft { clock := 60000, store := afterCrash } w' ⟨[1], [2], [4], 1, ["ws", "shop"]⟩ := by
  have hown : ∀ k t, afterCrash.tasks.get? k = some (.record t) → k = t.key := by
    intro k t hrow
    obtain ⟨u, hu, hk⟩ := keyed_afterCrash k _ hrow
    cases hu
    exact hk
  have hrun : recover.run.run { clock := 60000, store := afterCrash } =
      (.finished (.ok ⟨[1], [2], [4], 1, ["ws", "shop"]⟩), _) := rfl
  refine ⟨hown, ?_⟩
  rcases recovery_puts_store_in_order (w := { clock := 60000, store := afterCrash }) hown with
    ⟨report, w', hok, horder, hnothing⟩ | ⟨-, herror⟩
  · rw [hrun] at hok
    cases hok
    exact ⟨_, hrun, horder, hnothing⟩
  · rw [hrun] at herror
    cases herror

end Recovery

end TaskFleet
